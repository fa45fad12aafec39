import Mathlib
import Understudy.Proofs.NestedModules

/-!
# Generations that fail

A generation can fail at any of its steps, and what it wrote before stays. `Stops` has one case for
each of them and says which files have been written when it fails there: nothing as long as there
is no manifest, then the manifest, then also the stubs of the first packages.

> **A generation that fails leaves what it has written, and nothing else** (`generate_failed`): every
> other file is as it was.

If two files are written to one place, the place holds the later one. The stubs of different
packages have different places unless the module path is empty: then all import paths but one begin
at the root, and the output directory may be one of the directories that they lead to.
-/

set_option autoImplicit false

namespace Understudy

open Files DiskPath Modules

/-! ## Outcomes -/

/-- A sequence fails in its first part or after it. -/
theorem Report.bind_error_iff {α β : Type} {r : Report α} {f : α → Report β} {e : Failure} :
    (r >>= f).result = .error e ↔
      r.result = .error e ∨ ∃ a, r.result = .ok a ∧ (f a).result = .error e := by
  rw [Report.result_bind]
  cases r.result with
  | error failure =>
    constructor
    · exact fun h => Or.inl (congrArg Except.error (Except.error.inj h))
    · rintro (h | ⟨a, h, -⟩)
      · exact congrArg Except.error (Except.error.inj h)
      · cases h
  | ok a =>
    constructor
    · exact fun h => Or.inr ⟨a, rfl, h⟩
    · rintro (h | ⟨a', ha, h⟩)
      · cases h
      · cases ha
        exact h

namespace Outcome

variable {α β : Type} {o : Outcome α} {next : Disk → α → Outcome β} {d d' : Disk} {e : Failure}

/-- Whether a run fails and leaves a disk behind. -/
def Fails (o : Outcome α) (e : Failure) (d : Disk) : Prop := o.report.result = .error e ∧ o.disk = d

/-- A run that goes on fails in its first part or after it. -/
theorem andThen_fails : (o.andThen next).Fails e d' ↔
    o.Fails e d' ∨ ∃ a d₁, o.Ends a d₁ ∧ (next d₁ a).Fails e d' := by
  obtain ⟨disk, notes, result⟩ := o
  cases result with
  | error failure =>
    constructor
    · rintro ⟨h, hd⟩
      exact Or.inl ⟨congrArg Except.error (Except.error.inj h), hd⟩
    · rintro (⟨h, hd⟩ | ⟨a, d₁, ⟨h, -⟩, -⟩)
      · exact ⟨congrArg Except.error (Except.error.inj h), hd⟩
      · cases h
  | ok a =>
    constructor
    · intro h
      exact Or.inr ⟨a, disk, ⟨rfl, rfl⟩, h⟩
    · rintro (⟨h, -⟩ | ⟨a', d₁, ⟨ha, hd⟩, h⟩)
      · cases h
      · cases ha
        cases hd
        exact h

theorem map_fails {f : α → β} : (o.map f).Fails e d' ↔ o.Fails e d' := by
  obtain ⟨disk, notes, result⟩ := o
  cases result with
  | error failure =>
    constructor
    · rintro ⟨h, hd⟩
      exact ⟨congrArg Except.error (Except.error.inj h), hd⟩
    · rintro ⟨h, hd⟩
      exact ⟨congrArg Except.error (Except.error.inj h), hd⟩
  | ok a =>
    constructor
    · rintro ⟨h, -⟩
      cases h
    · rintro ⟨h, -⟩
      cases h

end Outcome

/-! ## Written files -/

namespace OutputFile

variable {d d' : Disk} {file : OutputFile} {files : List OutputFile} {t : FileTree} {e : Failure}

/-- A write that fails changes nothing. -/
theorem write_fails : (file.write d).Fails e d' ↔
    ∃ fault, d.writeText file.path file.text = .error fault ∧ e = .write file.path fault ∧
      d = d' := by
  rw [write]
  cases d.writeText file.path file.text with
  | error fault =>
    constructor
    · rintro ⟨h, hd⟩
      exact ⟨fault, rfl, (Except.error.inj h).symm, hd⟩
    · rintro ⟨fault', h, rfl, hd⟩
      cases h
      exact ⟨rfl, hd⟩
  | ok written =>
    constructor
    · rintro ⟨h, -⟩
      cases h
    · rintro ⟨fault, h, -⟩
      cases h

/-- No path of a written file is refused. -/
theorem accepted_of_writeAll (hd : d.Proper) (hfiles : ∀ f ∈ files, f.IsNamed) {w : List DiskPath}
    (h : (writeAll files d).Ends w d') :
    ∀ f ∈ files, Limits.refusal? d.limits f.path = none := by
  induction files generalizing d w with
  | nil => simp
  | cons file files ih =>
    obtain ⟨hfile, hfiles⟩ := List.forall_mem_cons.1 hfiles
    obtain ⟨d₁, hwrite, rest, hrest, rfl⟩ := writeAll_cons_ends.1 h
    obtain ⟨t, rfl, ht⟩ := writesAll_of_writeText hd hfile hwrite
    have hrest := ih (hd.withTree ht.wellFormed ht.grows) hfiles hrest
    refine List.forall_mem_cons.2 ⟨?_, hrest⟩
    obtain ⟨p, name, hname, hpath⟩ := hfile
    rw [hpath] at hwrite ⊢
    exact (Disk.writeText_spec hd hname hwrite).choose_spec.2.2.2

/-- Whether a tree has the files of a disk and some written ones: each of them holds its whole text,
and every other file is as it was. -/
structure HoldsExactly (d : Disk) (written : List OutputFile) (t : FileTree) : Prop where
  file : ∀ x b, t.get? x = some (.file b) ↔
    (∃ f ∈ written, x = d.place f.path ∧ b = f.text.toUTF8) ∨
      (∀ f ∈ written, x ≠ d.place f.path) ∧ d.tree.get? x = some (.file b)
  read : ∀ f ∈ written, (d.withTree t).readText f.path = .ok f.text

/-- Files that are written to different places are all there. -/
theorem WritesAll.holdsExactly (hd : d.Proper) (h : WritesAll d files t)
    (hdistinct : files.Pairwise fun f g => d.place f.path ≠ d.place g.path)
    (hnamed : ∀ f ∈ files, f.IsNamed)
    (haccepted : ∀ f ∈ files, Limits.refusal? d.limits f.path = none) :
    HoldsExactly d files t where
  file x b := by
    have hlast := lastAt_of_distinct hdistinct
    by_cases hx : ∃ f ∈ files, x = d.place f.path
    · obtain ⟨f, hf, rfl⟩ := hx
      rw [h.get, hlast f hf, Option.some_or]
      constructor
      · intro hb
        cases hb
        exact Or.inl ⟨f, hf, rfl, rfl⟩
      · rintro (⟨g, hg, hplace, rfl⟩ | ⟨hnone, -⟩)
        · have hsame := hlast g hg
          rwa [← hplace, hlast f hf] at hsame
        · exact absurd rfl (hnone f hf)
    · have hnone : ∀ f ∈ files, x ≠ d.place f.path := fun f hf he => hx ⟨f, hf, he⟩
      constructor
      · intro hb
        exact Or.inr ⟨hnone, (h.file_cases hb).resolve_right hx⟩
      · rintro (⟨f, hf, he, -⟩ | ⟨-, hb⟩)
        · exact absurd he (hnone f hf)
        · exact h.keeps hnone hb
  read f hf := Job.readText_accepted hd h hdistinct hf (hnamed f hf) (haccepted f hf)

end OutputFile

namespace Job

open OutputFile

variable {job : Job} {disk d d' : Disk} {installed : Option Stub.Tool} {patterns : List String}
variable {l : Loader} {packages done : List Package} {files : List (String × OutputFile)}
variable {formatter : Stub.Formatter} {policy : Stub.ImportPolicy} {t : FileTree} {e : Failure}

/-! ## The steps of a generation -/

theorem writeManifest_fails {manifest : Manifest} :
    (job.writeManifest d manifest).Fails e d' ↔ job.writesManifest = true ∧
      ((job.manifestFile manifest).write d).Fails e d' := by
  rw [writeManifest]
  split
  · next hwrites => rw [Outcome.map_fails, and_iff_right hwrites]
  · next hwrites =>
    constructor
    · rintro ⟨h, -⟩
      cases h
    · exact fun h => absurd h.1 hwrites

theorem prepare_fails : (job.prepare l installed patterns).result = .error e ↔
    (l.load patterns).result = .error e ∨ ∃ packages, (l.load patterns).result = .ok packages ∧
      Stub.Formatter.ofKind job.formatter installed = .error e := by
  rw [prepare, Report.bind_error_iff]
  refine or_congr Iff.rfl (exists_congr fun packages => and_congr Iff.rfl ?_)
  rw [Report.bind_error_iff, Report.result_ofExcept]
  refine or_iff_left ?_
  rintro ⟨formatter, -, h⟩
  cases h

/-- How the stub of a package fails: it cannot be made, or not be written. -/
inductive StubFails (job : Job) (formatter : Stub.Formatter) (policy : Stub.ImportPolicy)
    (package : Package) (d : Disk) : Failure → Prop
  | making {e : Failure} (h : (job.stubFile formatter policy package).result = .error e) :
    StubFails job formatter policy package d e
  | writing {file : OutputFile} {fault : DiskFault}
    (hfile : (job.stubFile formatter policy package).result = .ok file)
    (h : d.writeText file.path file.text = .error fault) :
    StubFails job formatter policy package d (.write file.path fault)

/-- **Stubs fail one after the other**: those in front of the one that fails are written. -/
theorem writeStubs_fails : (job.writeStubs formatter policy packages d).Fails e d' ↔
    ∃ done package rest files w, packages = done ++ package :: rest ∧
      (job.stubFiles formatter policy done).result = .ok files ∧
      (writeAll (files.map Prod.snd) d).Ends w d' ∧ job.StubFails formatter policy package d' e := by
  constructor
  · intro h
    -- Forwards by induction on the packages that are left to do, along the two steps of each.
    induction packages generalizing d with
    | nil => cases h.1
    | cons package packages ih =>
      rw [writeStubs] at h
      rcases Outcome.andThen_fails.1 h with ⟨hmaking, rfl⟩ | ⟨file, d₁, ⟨hfile, rfl⟩, h⟩
      · exact ⟨[], package, packages, [], [], rfl, rfl, ⟨rfl, rfl⟩, .making hmaking⟩
      · rcases Outcome.andThen_fails.1 h with h | ⟨path, d₂, hpath, h⟩
        · obtain ⟨fault, hwrite, rfl, rfl⟩ := write_fails.1 h
          exact ⟨[], package, packages, [], [], rfl, rfl, ⟨rfl, rfl⟩, .writing hfile hwrite⟩
        · obtain ⟨hwrite, rfl⟩ := write_ends.1 hpath
          obtain ⟨done, failed, rest, files, w, rfl, hfiles, hw, hfails⟩ :=
            ih (Outcome.map_fails.1 h)
          exact ⟨package :: done, failed, rest, _, _, rfl,
            stubFiles_cons_ok_iff.2 ⟨file, hfile, files, hfiles, rfl⟩,
            writeAll_cons_ends.2 ⟨d₂, hwrite, w, hw, rfl⟩, hfails⟩
  · rintro ⟨done, package, rest, files, w, rfl, hfiles, hw, hfails⟩
    -- Backwards by induction on those that have been written.
    induction done generalizing d files w with
    | nil =>
      cases hfiles
      obtain ⟨-, rfl⟩ := hw
      rw [List.nil_append, writeStubs]
      cases hfails with
      | making h => exact Outcome.andThen_fails.2 (Or.inl ⟨h, rfl⟩)
      | writing hfile h =>
        exact Outcome.andThen_fails.2 (Or.inr ⟨_, d, ⟨hfile, rfl⟩,
          Outcome.andThen_fails.2 (Or.inl (write_fails.2 ⟨_, h, rfl, rfl⟩))⟩)
    | cons first done ih =>
      obtain ⟨file, hfile, files, hrest, rfl⟩ := stubFiles_cons_ok_iff.1 hfiles
      obtain ⟨d₂, hwrite, w, hlast, rfl⟩ := writeAll_cons_ends.1 hw
      rw [List.cons_append, writeStubs]
      refine Outcome.andThen_fails.2 (Or.inr ⟨file, d, ⟨hfile, rfl⟩, ?_⟩)
      refine Outcome.andThen_fails.2 (Or.inr ⟨_, d₂, write_ends.2 ⟨hwrite, rfl⟩, ?_⟩)
      exact Outcome.map_fails.2 (ih _ _ hrest hlast)

/-! ## Where a generation stops -/

/-- Whether a generation has found its module, and a tree has the manifest if one is wanted. -/
structure Begun (job : Job) (disk : Disk) (l : Loader) (t : FileTree) : Prop where
  loader : job.loader disk = .ok l
  manifest : WritesAll disk (job.manifests l.module.manifest) t

/-- Where a generation can fail, and the files that it has written until then. -/
inductive Stops (job : Job) (disk : Disk) (installed : Option Stub.Tool) (patterns : List String) :
    Failure → List OutputFile → Prop
  /-- The module is not found. -/
  | discovery {e : Failure} (h : job.loader disk = .error e) : Stops job disk installed patterns e []
  /-- The manifest is wanted and cannot be written. -/
  | manifest {l : Loader} {fault : DiskFault} (hl : job.loader disk = .ok l)
    (hwrites : job.writesManifest = true)
    (h : disk.writeText (job.manifestFile l.module.manifest).path
      (job.manifestFile l.module.manifest).text = .error fault) :
    Stops job disk installed patterns (.write (job.manifestFile l.module.manifest).path fault) []
  /-- The packages are not loaded. -/
  | loading {l : Loader} {t : FileTree} {e : Failure} (hbegun : job.Begun disk l t)
    (h : ((l.onTree t).load patterns).result = .error e) :
    Stops job disk installed patterns e (job.manifests l.module.manifest)
  /-- The formatter is not there. -/
  | formatter {l : Loader} {t : FileTree} {packages : List Package} {e : Failure}
    (hbegun : job.Begun disk l t) (hload : ((l.onTree t).load patterns).result = .ok packages)
    (h : Stub.Formatter.ofKind job.formatter installed = .error e) :
    Stops job disk installed patterns e (job.manifests l.module.manifest)
  /-- The stub of a package fails, after those of the packages with smaller import paths. -/
  | stub {l : Loader} {t t' : FileTree} {done rest : List Package} {package : Package}
    {formatter : Stub.Formatter} {files : List (String × OutputFile)} {e : Failure}
    (hbegun : job.Begun disk l t)
    (hload : ((l.onTree t).load patterns).result = .ok (done ++ package :: rest))
    (hsorted : (done ++ package :: rest).Pairwise fun p q => p.path < q.path)
    (hformatter : Stub.Formatter.ofKind job.formatter installed = .ok formatter)
    (hfiles : (job.stubFiles formatter (.ofPackages job.allowed (done ++ package :: rest))
      done).result = .ok files)
    (hwritten : WritesAll disk (job.manifests l.module.manifest ++ files.map Prod.snd) t')
    (h : job.StubFails formatter (.ofPackages job.allowed (done ++ package :: rest)) package
      (disk.withTree t') e) :
    Stops job disk installed patterns e (job.manifests l.module.manifest ++ files.map Prod.snd)

theorem distinct_manifests (job : Job) (d : Disk) (manifest : Manifest) :
    (job.manifests manifest).Pairwise fun f g => d.place f.path ≠ d.place g.path := by
  rw [manifests]
  split <;> simp

/-- **The files of a generation have different places**, unless the module path is empty. -/
theorem distinct_written (hd : d.Proper) (hl : l.Rooted) (hm : l.module.manifest.module ≠ "")
    (hload : (l.load patterns).result = .ok packages) (hdone : done.Sublist packages)
    (hfiles : (job.stubFiles formatter policy done).result = .ok files) :
    (job.manifests l.module.manifest ++ files.map Prod.snd).Pairwise
      fun f g => d.place f.path ≠ d.place g.path := by
  obtain ⟨-, houtputs⟩ := paths_of_stubFiles hfiles
  have hstubs : (files.map fun f => f.2.path).Pairwise fun p q => d.place p ≠ d.place q := by
    rw [houtputs]
    exact List.pairwise_map.2 ((places_distinct_outputs hd hl hm hload).sublist hdone)
  refine List.pairwise_append.2 ⟨distinct_manifests job d _, ?_, fun f hf g hg => ?_⟩
  · rw [List.pairwise_map] at hstubs ⊢
    exact hstubs
  · have hword : ∀ p ∈ done, Source.isWord p.name = true := fun p hp =>
      (hl.package_of_load hload (hdone.subset hp)).choose_spec.2.2
    have hstub := place_stub_ne hd (stub_of_mem hword houtputs g hg)
    rw [manifests] at hf
    split at hf
    · rw [List.mem_singleton.1 hf, manifestFile, Disk.place_join_name hd _ isPlain_manifestName]
      exact (hstub _).symm
    · cases hf

/-- With an empty module path, the stub of a directory can take the place of that of the root. -/
example : (⟨⟨"/"⟩, ⟨"", none⟩⟩ : GoModule).importPath ⟨"out"⟩ = "/out" ∧
    sampleDisk.place ({ sampleJob with output := ⟨"/out"⟩ }.outputPath ⟨"", "p", ⟨"/"⟩, []⟩) =
      sampleDisk.place ({ sampleJob with output := ⟨"/out"⟩ }.outputPath
        ⟨"/out", "p", ⟨"/out"⟩, []⟩) := by
  decide

/-- A generation that fails at a stub has written the manifest and the stubs before. -/
theorem writeStubs_failed (hd : disk.Proper) (hbegun : job.Begun disk l t)
    (haccepted : ∀ f ∈ job.manifests l.module.manifest, Limits.refusal? disk.limits f.path = none)
    (hload : ((l.onTree t).load patterns).result = .ok packages)
    (hformatter : Stub.Formatter.ofKind job.formatter installed = .ok formatter)
    (h : (job.writeStubs formatter (.ofPackages job.allowed packages) packages
      (disk.withTree t)).Fails e d') :
    ∃ written t', d' = disk.withTree t' ∧ job.Stops disk installed patterns e written ∧
      WritesAll disk written t' ∧ (l.module.manifest.module ≠ "" → HoldsExactly disk written t') := by
  obtain ⟨hl, ht⟩ := hbegun
  have hd₁ := hd.withTree ht.wellFormed ht.grows
  have hrooted : (l.onTree t).Rooted := by
    refine (Loader.create_rooted hd hl).onTree ht.wellFormed ?_
    rw [(Loader.create_ok_iff.1 hl).2.1]
    exact ht.grows
  obtain ⟨done, package, rest, files, w, rfl, hfiles, hw, hstub⟩ := writeStubs_fails.1 h
  have hdone : done.Sublist (done ++ package :: rest) := List.sublist_append_left ..
  have hword : ∀ p ∈ done, Source.isWord p.name = true := fun p hp =>
    (hrooted.package_of_load hload (hdone.subset hp)).choose_spec.2.2
  have hnamed := isNamed_stubFiles hword hfiles
  obtain ⟨-, t', rfl, ht'⟩ := writeAll_spec hd₁ hnamed hw
  have hall := ht.append ht'
  have hsorted := (hrooted.load_ok hload).2.2.1
  refine ⟨_, t', rfl, .stub ⟨hl, ht⟩ hload hsorted hformatter hfiles hall hstub, hall, fun hm => ?_⟩
  have hdistinct := distinct_written (l := l.onTree t) hd hrooted hm hload hdone hfiles
  have hacceptedStubs := accepted_of_writeAll hd₁ hnamed hw
  exact hall.holdsExactly hd hdistinct
    (List.forall_mem_append.2 ⟨job.isNamed_manifests l.module.manifest, hnamed⟩)
    (List.forall_mem_append.2 ⟨haccepted, hacceptedStubs⟩)

/-- **A generation that fails leaves what it has written, and nothing else.** -/
theorem generate_failed (hd : disk.Proper)
    (h : (job.generate disk installed patterns).report.result = .error e) :
    ∃ written t, (job.generate disk installed patterns).disk = disk.withTree t ∧
      job.Stops disk installed patterns e written ∧ WritesAll disk written t ∧
      ((∀ l, job.loader disk = .ok l → l.module.manifest.module ≠ "") →
        HoldsExactly disk written t) := by
  have hfails : (job.generate disk installed patterns).Fails e
      (job.generate disk installed patterns).disk := ⟨h, rfl⟩
  generalize (job.generate disk installed patterns).disk = d' at hfails
  rw [generate] at hfails
  have hnothing : HoldsExactly disk [] disk.tree :=
    (WritesAll.nil hd).holdsExactly hd .nil (by simp) (by simp)
  rcases Outcome.andThen_fails.1 hfails with ⟨hdiscovery, rfl⟩ | ⟨l, _, ⟨hl, rfl⟩, hfails⟩
  · exact ⟨[], disk.tree, rfl, .discovery hdiscovery, .nil hd, fun _ => hnothing⟩
  rcases Outcome.andThen_fails.1 hfails with hfails | ⟨first, d₁, hmanifest, hfails⟩
  · obtain ⟨hwrites, hfails⟩ := writeManifest_fails.1 hfails
    obtain ⟨fault, hwrite, rfl, rfl⟩ := write_fails.1 hfails
    exact ⟨[], disk.tree, rfl, .manifest hl hwrites hwrite, .nil hd, fun _ => hnothing⟩
  -- From here on the manifest is there.
  have hfirst := writeManifest_ends.1 hmanifest
  have hnamed := job.isNamed_manifests l.module.manifest
  obtain ⟨-, t, rfl, ht⟩ := writeAll_spec hd hnamed hfirst
  have haccepted := accepted_of_writeAll hd hnamed hfirst
  have hheld := ht.holdsExactly hd (distinct_manifests job disk _) hnamed haccepted
  rw [loader_onTree hl] at hfails
  rcases Outcome.andThen_fails.1 hfails with ⟨hprepare, rfl⟩ | ⟨prepared, _, ⟨hprepare, rfl⟩, hfails⟩
  · rcases prepare_fails.1 hprepare with hload | ⟨packages, hload, hformatter⟩
    · exact ⟨_, t, rfl, .loading ⟨hl, ht⟩ hload, ht, fun _ => hheld⟩
    · exact ⟨_, t, rfl, .formatter ⟨hl, ht⟩ hload hformatter, ht, fun _ => hheld⟩
  · obtain ⟨packages, formatter, hload, hformatter, rfl⟩ := prepare_ok_iff.1 hprepare
    obtain ⟨written, t', rfl, hstops, hwritten, hholds⟩ := writeStubs_failed hd ⟨hl, ht⟩ haccepted
      hload hformatter (Outcome.map_fails.1 hfails)
    exact ⟨written, t', rfl, hstops, hwritten, fun hm => hholds (hm l hl)⟩

/-! ## A generation that fails at its second package -/

/-- The recursive pattern is not kept from its packages by a manifest below the output directory. -/
theorem not_hides_wide {names : Location} (h : wideLoader.Selects ["./..."] names) :
    ¬wideLoader.Hides ["./..."] [.ofText "out", .ofText "m"] names := by
  rintro ⟨spec', hspec', pattern', hpattern', -, pre, post, -, hnames, hplace⟩
  obtain ⟨spec, hspec, pattern, hpattern, hselected⟩ := h
  rw [List.mem_singleton.1 hspec] at hpattern
  cases patternOf_wide.symm.trans hpattern
  rw [List.mem_singleton.1 hspec'] at hpattern'
  cases patternOf_wide.symm.trans hpattern'
  have hbase : wideLoader.base = [] := by decide
  rw [hbase, List.nil_append, List.nil_append] at hplace
  rw [selection_wide, hnames, ← hplace] at hselected
  simp at hselected

/-- The stub of the first package of the two. -/
theorem stubFiles_wide : (sampleJob.stubFiles .native (.ofPackages [] [samplePackage, subPackage])
    [samplePackage]).result = .ok [("m", ⟨⟨"out/m/p.go"⟩, sampleText⟩)] := by
  have hstub : Stub.PackageStub.ofPackage (.ofPackages [] [samplePackage, subPackage]) .empty
      samplePackage = .ok ⟨"p", [], [Stub.sentinelDecl]⟩ := by cbv
  have hpath : sampleJob.outputPath samplePackage = ⟨"out/m/p.go"⟩ := by decide
  rw [← hpath]
  exact stubFiles_cons_ok_iff.2 ⟨_, stubFile_samplePackage sampleJob rfl hstub, [], rfl, rfl⟩

/-- The stub of the second one cannot be made. -/
theorem stubFile_subPackage :
    (sampleJob.stubFile .native (.ofPackages [] [samplePackage, subPackage]) subPackage).result =
      .error (.malformedReceiver "r" "M" (.entries 0)) := by
  have hstub : Stub.PackageStub.ofPackage (.ofPackages [] [samplePackage, subPackage]) .empty
      subPackage = .error (.malformedReceiver "r" "M" (.entries 0)) := by cbv
  refine Report.bind_error_iff.2 (Or.inr ⟨(), rfl, Report.bind_error_iff.2 (Or.inl ?_)⟩)
  exact hstub

/-- A run in which the stub of the second package cannot be made has written the manifest and the
stub of the first one. -/
theorem generate_failed_sample :
    (sampleJob.generate (sampleDisk.withTree wideTree) none ["./..."]).report.result =
      .error (.malformedReceiver "r" "M" (.entries 0)) ∧
    ∃ t, (sampleJob.generate (sampleDisk.withTree wideTree) none ["./..."]).disk =
        (sampleDisk.withTree wideTree).withTree t ∧
      HoldsExactly (sampleDisk.withTree wideTree)
        [⟨⟨"out/m/go.mod"⟩, "module m\n"⟩, ⟨⟨"out/m/p.go"⟩, sampleText⟩] t := by
  have hd : (sampleDisk.withTree wideTree).Sound :=
    sampleDisk_sound.withTree wideTree_grown.1 wideTree_grown.2
  have hl : sampleJob.loader (sampleDisk.withTree wideTree) = .ok wideLoader := wideLoader_created
  have hmanifests : sampleJob.manifests wideLoader.module.manifest =
      [⟨⟨"out/m/go.mod"⟩, "module m\n"⟩] := by decide
  have hload : ∀ t, sampleJob.Begun (sampleDisk.withTree wideTree) wideLoader t →
      ((wideLoader.onTree t).load ["./..."]).result = .ok [samplePackage, subPackage] := by
    intro t hbegun
    refine load_manifest hl hd hbegun.manifest (fun _ => Or.inr fun names _ hselects _ => ?_)
      load_wide
    have hplace : sampleJob.manifestPlace (sampleDisk.withTree wideTree)
        wideLoader.module.manifest = [.ofText "out", .ofText "m"] := by decide
    rw [hplace]
    exact not_hides_wide hselects
  have hcompatible : Compatible (sampleDisk.withTree wideTree)
      (sampleJob.manifests wideLoader.module.manifest ++ [⟨⟨"out/m/p.go"⟩, sampleText⟩]) := by
    rw [hmanifests]
    refine compatible_out fun x hx => ?_
    obtain ⟨xs, rfl⟩ := List.head?_eq_some_iff.1 hx
    rfl
  have hnamed := sampleJob.isNamed_manifests wideLoader.module.manifest
  obtain ⟨d₁, hfirst⟩ := writeAll_ok hd hnamed hcompatible.left
  obtain ⟨-, t₁, rfl, ht₁⟩ := writeAll_spec hd.proper hnamed hfirst
  have hbegun : sampleJob.Begun (sampleDisk.withTree wideTree) wideLoader t₁ := ⟨hl, ht₁⟩
  have hnamedStubs : ∀ f ∈ [(⟨⟨"out/m/p.go"⟩, sampleText⟩ : OutputFile)], f.IsNamed :=
    isNamed_stubFiles (by decide) stubFiles_wide
  obtain ⟨d₂, hsecond⟩ := writeAll_ok (hd.withTree ht₁.wellFormed ht₁.grows) hnamedStubs
    (hcompatible.append ht₁)
  have hresult : (sampleJob.generate (sampleDisk.withTree wideTree) none ["./..."]).Fails
      (.malformedReceiver "r" "M" (.entries 0)) d₂ := by
    refine Outcome.andThen_fails.2 (Or.inr ⟨wideLoader, _, ⟨hl, rfl⟩, ?_⟩)
    refine Outcome.andThen_fails.2 (Or.inr ⟨_, _, writeManifest_ends.2 hfirst, ?_⟩)
    rw [loader_onTree hl]
    refine Outcome.andThen_fails.2 (Or.inr ⟨_, _, ⟨prepare_ok_iff.2
      ⟨_, .native, hload t₁ hbegun, rfl, rfl⟩, rfl⟩, Outcome.map_fails.2 ?_⟩)
    exact writeStubs_fails.2 ⟨[samplePackage], subPackage, [], _, _, rfl, stubFiles_wide, hsecond,
      .making stubFile_subPackage⟩
  obtain ⟨written, t, hdisk, hstops, -, hholds⟩ := generate_failed hd.proper hresult.1
  have hholds := hholds fun l hl' => by
    cases hl.symm.trans hl'
    decide
  refine ⟨hresult.1, t, hdisk, ?_⟩
  cases hstops with
  | discovery h => cases hl.symm.trans h
  | loading hbegun h =>
    cases hl.symm.trans hbegun.loader
    cases (hload _ hbegun).symm.trans h
  | formatter _ _ h => cases h
  | @stub _ _ _ done rest package _ files _ hbegun hload' _ hformatter hfiles _ h =>
    cases hl.symm.trans hbegun.loader
    have hpackages := Except.ok.inj ((hload _ hbegun).symm.trans hload')
    cases hformatter
    rw [← hpackages] at hfiles h
    cases done with
    | nil =>
      -- The stub of the first package can be made.
      obtain ⟨rfl, -⟩ := List.cons.inj hpackages
      obtain ⟨file, hfile, -⟩ := stubFiles_cons_ok_iff.1 stubFiles_wide
      cases h with
      | making h => cases hfile.symm.trans h
    | cons first done =>
      obtain ⟨rfl, hrest⟩ := List.cons.inj hpackages
      cases done with
      | nil =>
        cases stubFiles_wide.symm.trans hfiles
        rwa [hmanifests] at hholds
      | cons second done =>
        have hlength := congrArg List.length hrest
        simp at hlength

end Job

end Understudy

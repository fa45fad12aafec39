import Mathlib
import Understudy.Generate
import Understudy.Proofs.ModuleRoots
import Understudy.Proofs.ParsedFiles
import Understudy.Proofs.SpelledNames

/-!
# Where the output is written

A path lies below a directory if it has the components of the directory and plain names after them.
The stubs and the manifest lie below the output directory, whatever directory that is, exactly if
the module path is a plain path itself: it is not empty, begins nowhere and has no step to a parent.
A generation for such a module leaves every file alone that is not below the output directory.
-/

set_option autoImplicit false

namespace Understudy.Files.DiskPath

/-- Whether a path leads from a directory through plain names. -/
def IsBelow (p base : DiskPath) : Prop :=
  ∃ names : Location, names ≠ [] ∧ p.components = base.components ++ names.map .name

/-- Whether a path has plain names only. -/
def IsPlainPath (p : DiskPath) : Prop := ∀ c ∈ p.components, c.isName = true

variable {p q : DiskPath} {names : Location}

theorem isPlainPath_of_names (names : Location) (h : p.components = names.map .name) :
    p.IsPlainPath := by
  intro c hc
  rw [h] at hc
  obtain ⟨name, -, rfl⟩ := List.mem_map.1 hc
  rfl

/-- The moves of a plain path are its names. -/
theorem IsPlainPath.spec (h : p.IsPlainPath) :
    p.lead = [] ∧ p.isAbsolute = false ∧ ∀ name ∈ p.moves, IsPlain name := by
  have hcomponents := components_eq p
  have hlead : p.lead = [] := by
    cases hl : p.lead with
    | nil => rfl
    | cons c cs =>
      have hc := h c (by rw [hcomponents, hl]; simp)
      rw [lead] at hl
      split at hl
      · cases hl
        cases hc
      · split at hl
        · cases hl
          cases hc
        · cases hl
  refine ⟨hlead, ?_, fun name hname => isPlain_of_mem_moves hname ?_⟩
  · rw [lead] at hlead
    split at hlead
    · cases hlead
    · next habs => simpa using habs
  · rintro rfl
    have hup := h .up (by
      rw [hcomponents]
      exact List.mem_append_right _ (List.mem_map.2 ⟨_, hname, rfl⟩))
    cases hup

theorem IsPlainPath.components (h : p.IsPlainPath) : p.components = p.moves.map .name := by
  obtain ⟨hlead, -, hplain⟩ := h.spec
  rw [components_eq, hlead, List.nil_append]
  exact List.map_congr_left fun m hm => if_neg (hplain m hm).2.1

/-- A path that goes on from another one through plain names. -/
structure Extends (p q : DiskPath) (names : Location) : Prop where
  lead : q.lead = p.lead
  moves : q.moves = p.moves ++ names
  plain : ∀ name ∈ names, IsPlain name

theorem isAbsolute_iff_lead : p.isAbsolute = true ↔ p.lead = [.root] := by
  rw [lead]
  split
  · next h => simp [h]
  · next h => split <;> simp [h]

theorem Extends.root (h : p.Extends q names) : q.isAbsolute = p.isAbsolute := by
  rw [Bool.eq_iff_iff, isAbsolute_iff_lead, isAbsolute_iff_lead, h.lead]

theorem Extends.components (h : p.Extends q names) :
    q.components = p.components ++ names.map .name := by
  have hnames : names.map moveComponent = names.map .name :=
    List.map_congr_left fun m hm => if_neg (h.plain m hm).2.1
  rw [components_eq, components_eq, h.lead, h.moves, List.map_append, hnames, List.append_assoc]

theorem Extends.trans {r : DiskPath} {more : Location} (h : p.Extends q names)
    (h' : q.Extends r more) : p.Extends r (names ++ more) where
  lead := h'.lead.trans h.lead
  moves := by rw [h'.moves, h.moves, List.append_assoc]
  plain := List.forall_mem_append.2 ⟨h.plain, h'.plain⟩

/-- Paths that go on from each other do so from every base. -/
theorem Extends.join (h : p.Extends q names) (base : DiskPath) :
    (base.join p).Extends (base.join q) names := by
  by_cases hb : base.raw = ""
  · rwa [join_empty hb, join_empty hb]
  · cases hp : p.isAbsolute with
    | true => rwa [join_absolute hp, join_absolute (h.root.trans hp)]
    | false =>
      have hq := h.root.trans hp
      refine ⟨by rw [lead_join hb hp, lead_join hb hq], ?_, h.plain⟩
      rw [moves_join hp, moves_join hq, h.moves, List.append_assoc]

/-- A plain path goes on from the path that it is joined to. -/
theorem IsPlainPath.extends (hq : q.IsPlainPath) (p : DiskPath) : p.Extends (p.join q) q.moves := by
  obtain ⟨hlead, habs, hplain⟩ := hq.spec
  refine ⟨?_, moves_join habs, hplain⟩
  by_cases hp : p.raw = ""
  · have hempty : p = ⟨""⟩ := by rw [← hp]
    rw [join_empty hp, hlead, hempty]
    decide
  · exact lead_join hp habs

theorem isPlainPath_of_plain {name : RawText} (h : IsPlain name) :
    (⟨name⟩ : DiskPath).IsPlainPath ∧ (⟨name⟩ : DiskPath).moves = [name] := by
  have hnil : (⟨""⟩ : DiskPath).components = [] := by decide
  have hcomponents := components_join_name ⟨""⟩ h
  rw [join_empty (p := ⟨""⟩) rfl, hnil] at hcomponents
  exact ⟨isPlainPath_of_names [name] hcomponents, moves_plain h⟩

theorem IsPlain.extends {name : RawText} (h : IsPlain name) (p : DiskPath) :
    p.Extends (p.join ⟨name⟩) [name] := by
  obtain ⟨hplain, hmoves⟩ := isPlainPath_of_plain h
  rw [← hmoves]
  exact hplain.extends p

/-- Names that are written after a path, each behind a slash, lead on from it. -/
theorem extends_append_names {m : String} (hm : m ≠ "") {names : List String}
    (h : ∀ name ∈ names, IsPlain (.ofText name)) :
    (⟨m⟩ : DiskPath).Extends ⟨.ofText (m ++ String.join (names.map fun name => "/" ++ name))⟩
      (names.map .ofText) := by
  induction names using List.reverseRecOn with
  | nil => exact ⟨by simp, by simp, by simp⟩
  | append_singleton names name ih =>
    have hname : IsPlain (.ofText name) := h name (by simp)
    obtain ⟨hlead, hmoves, -⟩ := ih fun n hn => h n (by simp [hn])
    have hlast : String.join ["/" ++ name] = "/" ++ name := by simp
    have hne : RawText.ofText (m ++ String.join (names.map fun name => "/" ++ name)) ≠ .ofText "" :=
      RawText.ofText_inj.not.2 (by simp [hm])
    rw [List.map_append, String.join_append, List.map_singleton, hlast, ← String.append_assoc,
      ← String.append_assoc, RawText.ofText_append, RawText.ofText_append]
    generalize RawText.ofText (m ++ String.join (names.map fun name => "/" ++ name)) = a
      at hlead hmoves hne
    have habs : (⟨a ++ "/" ++ .ofText name⟩ : DiskPath).isAbsolute = (⟨a⟩ : DiskPath).isAbsolute := by
      rw [Bool.eq_iff_iff, isAbsolute_iff (by simp [hne]), isAbsolute_iff hne, segments_append,
        List.head?_append_of_ne_nil _ (segments_ne_nil _)]
    refine ⟨?_, ?_, List.forall_mem_map.2 h⟩
    · rw [← hlead, lead, lead, habs, segments_append,
        List.head?_append_of_ne_nil _ (segments_ne_nil _)]
    · rw [moves_append, hmoves, moves_plain hname, List.append_assoc, List.map_append]
      rfl

end Understudy.Files.DiskPath

namespace Understudy.Files.Disk

open DiskPath

variable {d : Disk} {p q : DiskPath} {names : Location} {name : RawText} {text : String}
  {t : FileTree}

/-- A path that is extended by names leads on from where it leads. -/
theorem place_extends (d : Disk) (h : p.Extends q names) : d.place q = d.place p ++ names := by
  have hup : .ofText ".." ∉ names := fun hmem => (h.plain _ hmem).2.1 rfl
  rw [place, (h.join d.cwd).moves, landing_append, landing_names hup]
  rfl

/-- What a tree holds after a file is written. -/
theorem WritesFile.get? (h : d.WritesFile p name text t) (x : Location) :
    t.get? x = if x = d.place p ++ [name] then some (.file text.toUTF8)
      else (d.tree.get? x).or (if x ∈ d.onTheWay p then some .directory else none) := by
  obtain ⟨made, hmade, -, rfl⟩ := h
  split
  · next hx =>
    rw [hx]
    exact FileTree.get?_put_self (by simp) _
  · next hx => rw [FileTree.get?_put_of_ne hx, hmade.2]

/-- The directories on the way to a file that is written are there. -/
theorem WritesFile.ways (h : d.WritesFile p name text t) :
    ∀ x ∈ d.onTheWay p, t.get? x = some .directory := by
  obtain ⟨made, hmade, hfree, rfl⟩ := h
  intro x hx
  rw [FileTree.get?_put_of_ne, hmade.made hx]
  intro he
  exact hfree (by rw [← he, hmade.made hx])

theorem WritesFile.grows (h : d.WritesFile p name text t) : FileTree.Grows d.tree t := by
  have hget := h.get?
  obtain ⟨made, hmade, hfree, -⟩ := h
  constructor
  · intro x hx
    have hne : x ≠ d.place p ++ [name] := by
      rintro rfl
      exact hfree (hmade.grows.directory _ hx)
    rw [hget, if_neg hne, hx, Option.some_or]
  · intro x b hx
    by_cases he : x = d.place p ++ [name]
    · exact ⟨_, by rw [hget, if_pos he]⟩
    · exact ⟨b, by rw [hget, if_neg he, hx, Option.some_or]⟩

end Understudy.Files.Disk

namespace Understudy

open Files DiskPath Modules

theorem Outcome.map_disk {α β : Type} (o : Outcome α) (f : α → β) : (o.map f).disk = o.disk := rfl

/-- Whether a module path is a plain path. -/
def Modules.Manifest.IsPlain (m : Manifest) : Prop :=
  m.module ≠ "" ∧ (⟨m.module⟩ : DiskPath).IsPlainPath

/-- The import path of a directory goes on from the module path. -/
theorem Modules.GoModule.extends_importPath {m : GoModule} (hm : m.manifest.module ≠ "")
    {dir : DiskPath} (hdir : dir.IsPlainPath) :
    (⟨m.manifest.module⟩ : DiskPath).Extends ⟨m.importPath dir⟩
      ((dir.moves.map RawText.text).map .ofText) := by
  have hpath : m.importPath dir =
      m.manifest.module ++ String.join ((dir.moves.map RawText.text).map fun name => "/" ++ name) := by
    rw [GoModule.importPath, hdir.components, List.map_map, List.map_map]
    rfl
  rw [hpath]
  refine extends_append_names hm fun name hname => ?_
  obtain ⟨move, hmove, rfl⟩ := List.mem_map.1 hname
  exact isPlain_text (hdir.spec.2.2 move hmove)

namespace Job

variable {job : Job} {package : Package}

theorem fileName_ne {s : String} (name : String) (hs : s.toList.getLast? ≠ some 'o') :
    name ++ ".go" ≠ s := by
  have hgo : (".go" : String).toList = ['.', 'g', 'o'] := rfl
  rintro rfl
  exact hs (by simp [hgo])

/-- The name of a stub file is plain. -/
theorem isPlain_fileName {name : String} (h : '/' ∉ name.toList) :
    IsPlain (.ofText (name ++ ".go")) := by
  have hgo : (".go" : String).toList = ['.', 'g', 'o'] := rfl
  have hne : ∀ s : String, s.toList.getLast? ≠ some 'o' →
      RawText.ofText (name ++ ".go") ≠ .ofText s :=
    fun s hs => RawText.ofText_inj.not.2 (fileName_ne name hs)
  refine ⟨?_, hne ".." (by decide), ?_⟩
  · rw [isIdleSegment, Bool.or_eq_false_iff, beq_eq_false_iff_ne, beq_eq_false_iff_ne]
    exact ⟨hne "" (by decide), hne "." (by decide)⟩
  · rw [RawText.slash_mem_bytes_ofText]
    simp [hgo, h]

theorem no_slash_of_isWord {name : String} (h : Source.isWord name = true) : '/' ∉ name.toList :=
  fun hc => absurd (Source.mem_of_isWord h _ hc) (by decide)

/-! ## Places below the output directory -/

/-- The files that a disk has and another one had not lie below a place. -/
structure OnlyBelow (base : Location) (d d' : Disk) : Prop where
  sound : d'.Sound
  tree : ∃ t, d' = d.withTree t
  grows : FileTree.Grows d.tree d'.tree
  files : ∀ x b, d'.tree.get? x = some (.file b) →
    d.tree.get? x = some (.file b) ∨ ∃ names, names ≠ [] ∧ x = base ++ names

variable {base : Location} {d d' d'' : Disk}

theorem OnlyBelow.refl (hd : d.Sound) : OnlyBelow base d d :=
  ⟨hd, ⟨d.tree, rfl⟩, .refl _, fun _ _ h => Or.inl h⟩

theorem OnlyBelow.trans (h : OnlyBelow base d d') (h' : OnlyBelow base d' d'') :
    OnlyBelow base d d'' where
  sound := h'.sound
  tree := by
    obtain ⟨t, rfl⟩ := h.tree
    obtain ⟨t', rfl⟩ := h'.tree
    exact ⟨t', rfl⟩
  grows := h.grows.trans h'.grows
  files x b hx := by
    rcases h'.files x b hx with hx | hx
    · exact h.files x b hx
    · exact Or.inr hx

/-- **Writing a file** below a place changes no file elsewhere. -/
theorem write_onlyBelow (hd : d.Sound) {file : OutputFile} {p : DiskPath} {name : RawText}
    (hname : DiskPath.IsPlain name) (hpath : file.path = p.join ⟨name⟩) {names : Location}
    (hplace : d.place p = base ++ names) : OnlyBelow base d (file.write d).disk := by
  rw [OutputFile.write, hpath]
  cases hwrite : d.writeText (p.join ⟨name⟩) file.text with
  | error fault => exact .refl hd
  | ok d' =>
    obtain ⟨t, rfl, hwrites, hwf, -⟩ := Disk.writeText_spec hd.proper hname hwrite
    refine ⟨hd.withTree hwf hwrites.grows, ⟨t, rfl⟩, hwrites.grows, fun x b hx => ?_⟩
    have hget := hwrites.get? x
    rw [show t.get? x = some (.file b) from hx] at hget
    split at hget
    · next he => exact Or.inr ⟨names ++ [name], by simp, by rw [he, hplace, List.append_assoc]⟩
    · cases hold : d.tree.get? x with
      | none =>
        rw [hold] at hget
        split at hget <;> cases hget
      | some e =>
        rw [hold, Option.some_or] at hget
        exact Or.inl hget.symm

/-- A run that goes on changes no file elsewhere if its parts do not. -/
theorem OnlyBelow.andThen {α β : Type} {o : Outcome α} {next : Disk → α → Outcome β}
    (h : OnlyBelow base d o.disk)
    (hnext : ∀ a, o.report.result = .ok a → OnlyBelow base o.disk (next o.disk a).disk) :
    OnlyBelow base d (o.andThen next).disk := by
  rw [Outcome.andThen]
  cases hr : o.report.result with
  | error failure => exact h
  | ok a => exact h.trans (hnext a hr)

/-- What it takes to make the stub of a package. -/
theorem stubFile_ok_iff {formatter : Stub.Formatter} {policy : Stub.ImportPolicy}
    {file : OutputFile} : (job.stubFile formatter policy package).result = .ok file ↔
      ∃ stub text, Stub.PackageStub.ofPackage policy job.overrides package = .ok stub ∧
        formatter.apply (job.outputPath package) stub.render = .ok text ∧
          file = ⟨job.outputPath package, text⟩ := by
  constructor
  · intro h
    obtain ⟨-, -, h⟩ := Report.bind_ok_iff.1 h
    obtain ⟨stub, hstub, h⟩ := Report.bind_ok_iff.1 h
    obtain ⟨-, -, h⟩ := Report.bind_ok_iff.1 h
    obtain ⟨-, -, h⟩ := Report.bind_ok_iff.1 h
    obtain ⟨text, htext, h⟩ := Report.bind_ok_iff.1 h
    exact ⟨stub, text, hstub, htext, (Except.ok.inj h).symm⟩
  · rintro ⟨stub, text, hstub, htext, rfl⟩
    refine Report.bind_ok_iff.2 ⟨(), rfl, Report.bind_ok_iff.2 ⟨stub, hstub, ?_⟩⟩
    refine Report.bind_ok_iff.2 ⟨(), rfl, Report.bind_ok_iff.2 ⟨(), rfl, ?_⟩⟩
    exact Report.bind_ok_iff.2 ⟨text, htext, rfl⟩

/-- Whether the files of a package lie below the output directory. -/
def Fits (package : Package) : Prop :=
  (⟨package.path⟩ : DiskPath).IsPlainPath ∧ Source.isWord package.name = true

theorem writeStubs_onlyBelow {formatter : Stub.Formatter} {policy : Stub.ImportPolicy}
    {packages : List Package} (h : ∀ p ∈ packages, Fits p) (hd : d.Sound) :
    OnlyBelow (d.place job.output) d (job.writeStubs formatter policy packages d).disk := by
  induction packages generalizing d with
  | nil => exact .refl hd
  | cons package packages ih =>
    obtain ⟨⟨hplain, hword⟩, hpackages⟩ := List.forall_mem_cons.1 h
    refine (OnlyBelow.refl hd).andThen fun file hfile => ?_
    have hpath : file.path =
        (job.output.join ⟨package.path⟩).join ⟨.ofText (package.name ++ ".go")⟩ := by
      obtain ⟨stub, text, -, -, rfl⟩ := stubFile_ok_iff.1 hfile
      rfl
    have hplace := d.place_extends (hplain.extends job.output)
    have hwrite := write_onlyBelow hd (isPlain_fileName (no_slash_of_isWord hword)) hpath hplace
    refine hwrite.andThen fun path hpath => ?_
    obtain ⟨t, ht⟩ := hwrite.tree
    have hrest := ih hpackages hwrite.sound
    rw [ht, Disk.withTree_place] at hrest
    rw [ht]
    exact hrest

end Job

namespace Modules.Loader

variable {l : Loader} {patterns : List String} {packages : List Package} {package : Package}

/-- What is known of a package that was loaded. -/
theorem Rooted.package_of_load (hl : l.Rooted) (h : (l.load patterns).result = .ok packages)
    (hp : package ∈ packages) :
    ∃ names : List String, (∀ name ∈ names, IsPlain (.ofText name)) ∧ package.path =
      l.module.manifest.module ++ String.join (names.map fun name => "/" ++ name) ∧
        Source.isWord package.name = true := by
  obtain ⟨names, hselects, hpackage⟩ := (hl.load_ok h).2.2.2.mem package hp
  obtain ⟨hpath, -, text, source, hparse, hname⟩ := path_of_packageIn hpackage
  have hplain := hselects.isPlain hl
  refine ⟨names.map RawText.text, ?_, ?_, ?_⟩
  · intro name hname
    obtain ⟨raw, hraw, rfl⟩ := List.mem_map.1 hname
    exact isPlain_text (hplain raw hraw)
  · rw [hpath, importPathOf_directoryAt hl hplain, List.map_map]
    rfl
  rw [← hname]
  exact (Source.parse_fits hparse).package

theorem package_of_load (hl : l.Sound) (h : (l.load patterns).result = .ok packages)
    (hp : package ∈ packages) :
    ∃ names : List String, (∀ name ∈ names, IsPlain (.ofText name)) ∧ package.path =
      l.module.manifest.module ++ String.join (names.map fun name => "/" ++ name) ∧
        Source.isWord package.name = true :=
  hl.rooted.package_of_load h hp

end Modules.Loader

namespace Job

variable {job : Job} {package : Package} {disk : Disk} {installed : Option Stub.Tool}
variable {patterns : List String} {l : Loader}

/-- **A generation for a module with a plain path** changes no file elsewhere. -/
theorem generate_onlyBelow (hd : disk.Sound) (hl : job.loader disk = .ok l)
    (hm : l.module.manifest.IsPlain) :
    OnlyBelow (disk.place job.output) disk (job.generate disk installed patterns).disk := by
  have hsound : l.Sound := Loader.create_sound hd hl
  have hdisk : l.disk = disk := (Loader.create_ok_iff.1 hl).2.1
  refine (OnlyBelow.refl hd).andThen fun loader hloader => ?_
  have heq : l = loader := by
    change job.loader disk = _ at hloader
    exact Except.ok.inj (hl.symm.trans hloader)
  subst heq
  have hmanifest : OnlyBelow (disk.place job.output) disk
      (job.writeManifest disk l.module.manifest).disk := by
    rw [writeManifest]
    split
    · have hpath : (job.manifestFile l.module.manifest).path =
          (job.output.join ⟨l.module.manifest.module⟩).join ⟨manifestName⟩ := rfl
      have hplace := disk.place_extends (hm.2.extends job.output)
      rw [Outcome.map_disk]
      exact write_onlyBelow hd isPlain_manifestName hpath hplace
    · exact .refl hd
  refine hmanifest.andThen fun manifests _ => ?_
  obtain ⟨t, ht⟩ := hmanifest.tree
  have hgrows := hmanifest.grows
  have hwf := hmanifest.sound.tree
  change OnlyBelow _ (job.writeManifest disk l.module.manifest).disk (Outcome.disk _)
  rw [ht] at hgrows hwf ⊢
  -- The packages are loaded from the tree that holds the new manifest.
  have hsound' : (l.onTree t).Sound := hsound.onTree hwf (by rwa [hdisk])
  refine (OnlyBelow.refl (hd.withTree hwf hgrows)).andThen fun prepared hprepared => ?_
  obtain ⟨packages, hload, hrest⟩ := Report.bind_ok_iff.1 hprepared
  obtain ⟨formatter, -, hrest⟩ := Report.bind_ok_iff.1 hrest
  cases hrest
  have hload : ((l.onTree t).load patterns).result = .ok packages := by
    rw [Loader.onTree, hdisk]
    exact hload
  refine writeStubs_onlyBelow (fun p hp => ?_) (hd.withTree hwf hgrows)
  obtain ⟨names, hplain, hpath, hword⟩ := Loader.package_of_load hsound' hload hp
  refine ⟨?_, hword⟩
  have hextends := extends_append_names hm.1 hplain
  rw [hpath]
  refine isPlainPath_of_names ((⟨l.module.manifest.module⟩ : DiskPath).moves ++ names.map .ofText) ?_
  rw [List.map_append, ← hm.2.components]
  exact hextends.components

theorem isBelow_of_extends {p q : DiskPath} {names : Location} (h : p.Extends q names)
    (hne : names ≠ []) : q.IsBelow p :=
  ⟨names, hne, h.components⟩

/-- **Where the output lies**: the stubs and the manifest of a module lie below every output
directory exactly if the module path is a plain path, and a generation for such a module changes no
file elsewhere. -/
theorem outputs_below_iff (job : Job) (manifest : Manifest) :
    ((∀ (output dir : DiskPath) (m : GoModule) (package : Package), m.manifest = manifest →
        dir.IsPlainPath → Source.isWord package.name = true → package.path = m.importPath dir →
          ({ job with output }.outputPath package).IsBelow output ∧
            ({ job with output }.manifestFile manifest).path.IsBelow output) ↔
      manifest.IsPlain) ∧
    (manifest.IsPlain → ∀ (disk : Disk) (installed : Option Stub.Tool) (patterns : List String)
      (l : Loader), disk.Sound → job.loader disk = .ok l → l.module.manifest = manifest →
        OnlyBelow (disk.place job.output) disk (job.generate disk installed patterns).disk) := by
  refine ⟨⟨fun h => ?_, ?_⟩, ?_⟩
  · have hword : Source.isWord "p" = true := by decide
    refine ⟨?_, ?_⟩
    · -- The empty module path sends every package but the one at the root to an absolute path.
      intro hempty
      have hpath : "/a" = GoModule.importPath ⟨⟨"/"⟩, manifest⟩ ⟨"a"⟩ := by
        rw [GoModule.importPath, hempty]
        decide
      obtain ⟨⟨names, -, hnames⟩, -⟩ := h ⟨"out"⟩ ⟨"a"⟩ ⟨⟨"/"⟩, manifest⟩ ⟨"/a", "p", ⟨"a"⟩, []⟩ rfl
        (by unfold IsPlainPath; decide) hword hpath
      have hstub : (((⟨"out"⟩ : DiskPath).join ⟨"/a"⟩).join ⟨.ofText ("p" ++ ".go")⟩).components =
          [.root, .name "a", .name "p.go"] := by decide
      have hout : (⟨"out"⟩ : DiskPath).components = [.name "out"] := by decide
      have hsame := hstub.symm.trans hnames
      rw [hout] at hsame
      cases hsame
    · -- Seen from the empty output directory the manifest shows all of the module path.
      obtain ⟨-, names, -, hnames⟩ := h ⟨""⟩ ⟨""⟩ ⟨⟨"/"⟩, manifest⟩
        ⟨GoModule.importPath ⟨⟨"/"⟩, manifest⟩ ⟨""⟩, "p", ⟨""⟩, []⟩ rfl
        (by unfold IsPlainPath; decide) hword rfl
      have hempty : (⟨""⟩ : DiskPath).components = [] := by decide
      rw [manifestFile, join_empty (p := ⟨""⟩) rfl, components_join_name _ isPlain_manifestName, hempty,
        List.nil_append] at hnames
      intro c hc
      have hname : c ∈ names.map Component.name := by
        rw [← hnames]
        exact List.mem_append_left _ hc
      obtain ⟨name, -, rfl⟩ := List.mem_map.1 hname
      rfl
  · rintro hm output dir m package rfl hdir hword hpath
    have hmodule := hm.2.extends output
    have hpackage := hmodule.trans ((GoModule.extends_importPath hm.1 hdir).join output)
    have hfile := hpackage.trans
      ((isPlain_fileName (no_slash_of_isWord hword)).extends (output.join ⟨m.importPath dir⟩))
    have hmanifest := hmodule.trans
      (isPlain_manifestName.extends (output.join ⟨m.manifest.module⟩))
    rw [outputPath, hpath]
    exact ⟨isBelow_of_extends hfile (by simp), isBelow_of_extends hmanifest (by simp)⟩
  · rintro hm disk installed patterns l hd hl rfl
    exact generate_onlyBelow hd hl hm

/-- A job that reads the working directory and writes below `out`. -/
def sampleJob : Job where
  input := ⟨"."⟩
  output := ⟨"out"⟩
  writesManifest := true
  allowed := []
  overrides := .empty
  target := .default
  formatter := .native

theorem outputs_below_sample :
    (sampleJob.outputPath ⟨"x.io/m/a", "p", ⟨"/m/a"⟩, []⟩).IsBelow ⟨"out"⟩ ∧
      (sampleJob.manifestFile ⟨"x.io/m", none⟩).path.IsBelow ⟨"out"⟩ := by
  have hplain : Manifest.IsPlain ⟨"x.io/m", none⟩ := by
    refine ⟨by decide, ?_⟩
    unfold IsPlainPath
    decide
  have hdir : (⟨"a"⟩ : DiskPath).IsPlainPath := by
    unfold IsPlainPath
    decide
  exact (outputs_below_iff sampleJob ⟨"x.io/m", none⟩).1.2 hplain ⟨"out"⟩ ⟨"a"⟩
    ⟨⟨"/m"⟩, ⟨"x.io/m", none⟩⟩ ⟨"x.io/m/a", "p", ⟨"/m/a"⟩, []⟩ rfl hdir (by decide) (by decide)

/-- A module path with a step to the parent leads out of the output directory. -/
theorem outputs_below_up :
    Manifest.parse "module ../x\n" = .ok ⟨"../x", none⟩ ∧
      sampleJob.outputPath ⟨"../x", "p", ⟨"/m"⟩, []⟩ = ⟨"out/../x/p.go"⟩ ∧
      ¬(sampleJob.outputPath ⟨"../x", "p", ⟨"/m"⟩, []⟩).IsBelow ⟨"out"⟩ := by
  have hout : (⟨"out"⟩ : DiskPath).components = [.name "out"] := by decide
  have hpath : (⟨"out/../x/p.go"⟩ : DiskPath).components =
      [.name "out", .up, .name "x", .name "p.go"] := by decide
  refine ⟨by decide, by decide, ?_⟩
  rintro ⟨names, -, hnames⟩
  rw [show sampleJob.outputPath ⟨"../x", "p", ⟨"/m"⟩, []⟩ = ⟨"out/../x/p.go"⟩ by decide, hpath,
    hout] at hnames
  have hup : Component.up ∈ names.map Component.name := by
    have htail : [.up, .name "x", .name "p.go"] = names.map Component.name :=
      (List.cons.inj hnames).2
    rw [← htail]
    simp
  obtain ⟨name, -, hname⟩ := List.mem_map.1 hup
  cases hname

end Job

end Understudy

import Mathlib
import Understudy.Proofs.OutputPlaces

/-!
# Files that are written one after the other

What a tree holds after some files are written: at the place of a file the text that was written
there last, on the way to a file a directory, and elsewhere what it held before (`WritesAll`). Files
can be written if no place is both that of a file and that of a directory (`writeAll_ok`).

A generation writes the manifest, loads the packages, and writes their stubs (`generate_ends`,
`generate_spec`).
-/

set_option autoImplicit false

namespace Understudy

open Files DiskPath Modules

/-! ## Outcomes -/

namespace Outcome

variable {α β : Type} {o : Outcome α} {next : Disk → α → Outcome β} {d d' : Disk} {b : β}

/-- Whether a run has a result and leaves a disk behind. -/
def Ends (o : Outcome α) (a : α) (d : Disk) : Prop := o.report.result = .ok a ∧ o.disk = d

theorem andThen_ends : (o.andThen next).Ends b d' ↔
    ∃ a d₁, o.Ends a d₁ ∧ (next d₁ a).Ends b d' := by
  obtain ⟨disk, notes, result⟩ := o
  cases result with
  | error failure =>
    constructor
    · rintro ⟨h, -⟩
      cases h
    · rintro ⟨a, d₁, ⟨h, -⟩, -⟩
      cases h
  | ok a =>
    constructor
    · intro h
      exact ⟨a, disk, ⟨rfl, rfl⟩, h⟩
    · rintro ⟨a', d₁, ⟨ha, hd⟩, h⟩
      cases ha
      cases hd
      exact h

theorem map_ends {f : α → β} : (o.map f).Ends b d' ↔ ∃ a, o.Ends a d' ∧ f a = b := by
  obtain ⟨disk, notes, result⟩ := o
  cases result with
  | error failure =>
    constructor
    · rintro ⟨h, -⟩
      cases h
    · rintro ⟨a, ⟨h, -⟩, -⟩
      cases h
  | ok a =>
    constructor
    · rintro ⟨h, hd⟩
      exact ⟨a, ⟨rfl, hd⟩, Except.ok.inj h⟩
    · rintro ⟨a', ⟨ha, hd⟩, rfl⟩
      cases ha
      exact ⟨rfl, hd⟩

end Outcome

/-! ## One file -/

namespace OutputFile

variable {d d' : Disk} {file : OutputFile} {files : List OutputFile}

/-- Whether the path of a file ends with a plain name. -/
def IsNamed (file : OutputFile) : Prop :=
  ∃ (p : DiskPath) (name : RawText), IsPlain name ∧ file.path = p.join ⟨name⟩

/-- The directories on the way to a file. -/
def way (file : OutputFile) (d : Disk) : List Location := (d.onTheWay file.path).dropLast

theorem withTree_withTree (d : Disk) (t t' : FileTree) :
    (d.withTree t).withTree t' = d.withTree t' := rfl

@[simp] theorem way_withTree (file : OutputFile) (t : FileTree) :
    file.way (d.withTree t) = file.way d := rfl

theorem way_of_join (hd : d.Proper) {p : DiskPath} {name : RawText} (hname : IsPlain name)
    (hpath : file.path = p.join ⟨name⟩) :
    file.way d = d.onTheWay p ∧ d.place file.path = d.place p ++ [name] := by
  rw [way, hpath, Disk.onTheWay_join_name hd _ hname, Disk.place_join_name hd _ hname]
  exact ⟨List.dropLast_concat, rfl⟩

/-- A file at its place, if that is the place. -/
def entryAt (file : OutputFile) (d : Disk) (x : Location) : Option Entry :=
  if x = d.place file.path then some (.file file.text.toUTF8) else none

/-- A directory on the way to one of some files. -/
def directoryAt (d : Disk) (x : Location) : List OutputFile → Option Entry
  | [] => none
  | file :: files => (if (file.way d).contains x then some .directory else none).or (directoryAt d x files)

/-- The file that was written last at a place. -/
def lastAt (d : Disk) (x : Location) : List OutputFile → Option Entry
  | [] => none
  | file :: files => (lastAt d x files).or (file.entryAt d x)

theorem directoryAt_eq (d : Disk) (x : Location) (files : List OutputFile) :
    directoryAt d x files = if ∃ file ∈ files, x ∈ file.way d then some .directory else none := by
  induction files with
  | nil => simp [directoryAt]
  | cons file files ih =>
    rw [directoryAt, ih]
    by_cases h : x ∈ file.way d <;> simp [h]

theorem directoryAt_withTree (t : FileTree) (x : Location) (files : List OutputFile) :
    directoryAt (d.withTree t) x files = directoryAt d x files := by
  induction files with
  | nil => rfl
  | cons file files ih => rw [directoryAt, directoryAt, ih, way_withTree]

theorem lastAt_withTree (t : FileTree) (x : Location) (files : List OutputFile) :
    lastAt (d.withTree t) x files = lastAt d x files := by
  induction files with
  | nil => rfl
  | cons file files ih => rw [lastAt, lastAt, ih, entryAt, entryAt, Disk.withTree_place]

/-- The tree after some files are written. -/
structure WritesAll (d : Disk) (files : List OutputFile) (t : FileTree) : Prop where
  wellFormed : t.WellFormed
  grows : FileTree.Grows d.tree t
  get : ∀ x, t.get? x = (lastAt d x files).or ((d.tree.get? x).or (directoryAt d x files))
  ways : ∀ f ∈ files, ∀ x ∈ f.way d, t.get? x = some .directory

theorem WritesAll.nil (hd : d.Proper) : WritesAll d [] d.tree where
  wellFormed := hd.tree
  grows := .refl _
  get x := by simp [lastAt, directoryAt]
  ways := by simp

theorem lastAt_append (d : Disk) (x : Location) (files files' : List OutputFile) :
    lastAt d x (files ++ files') = (lastAt d x files').or (lastAt d x files) := by
  induction files with
  | nil => simp [lastAt]
  | cons file files ih => rw [List.cons_append, lastAt, lastAt, ih, Option.or_assoc]

theorem directoryAt_append (d : Disk) (x : Location) (files files' : List OutputFile) :
    directoryAt d x (files ++ files') = (directoryAt d x files).or (directoryAt d x files') := by
  induction files with
  | nil => simp [directoryAt]
  | cons file files ih => rw [List.cons_append, directoryAt, directoryAt, ih, Option.or_assoc]

/-- What is written first is written over by the rest. -/
theorem WritesAll.append {files' : List OutputFile} {t t' : FileTree} (h : WritesAll d files t)
    (h' : WritesAll (d.withTree t) files' t') : WritesAll d (files ++ files') t' where
  wellFormed := h'.wellFormed
  grows := h.grows.trans h'.grows
  get x := by
    rw [h'.get x, lastAt_withTree, directoryAt_withTree, Disk.withTree_tree, h.get x,
      lastAt_append, directoryAt_append]
    simp only [Option.or_assoc]
  ways f hf x hx := by
    rcases List.mem_append.1 hf with hf | hf
    · exact h'.grows.directory x (h.ways f hf x hx)
    · exact h'.ways f hf x hx

theorem write_ends {path : DiskPath} : (file.write d).Ends path d' ↔
    d.writeText file.path file.text = .ok d' ∧ path = file.path := by
  rw [write]
  cases d.writeText file.path file.text with
  | error fault =>
    constructor
    · rintro ⟨h, -⟩
      cases h
    · rintro ⟨h, -⟩
      cases h
  | ok written =>
    constructor
    · rintro ⟨h, rfl⟩
      exact ⟨rfl, (Except.ok.inj h).symm⟩
    · rintro ⟨h, rfl⟩
      cases h
      exact ⟨rfl, rfl⟩

/-- **Writing one file**. -/
theorem writesAll_of_writeText (hd : d.Proper) (hfile : file.IsNamed)
    (h : d.writeText file.path file.text = .ok d') :
    ∃ t, d' = d.withTree t ∧ WritesAll d [file] t := by
  obtain ⟨p, name, hname, hpath⟩ := hfile
  obtain ⟨hway, hplace⟩ := way_of_join hd hname hpath
  rw [hpath] at h
  obtain ⟨t, ht, hwrites, hwf, -⟩ := Disk.writeText_spec hd hname h
  refine ⟨t, ht, hwf, hwrites.grows, fun x => ?_, ?_⟩
  · rw [hwrites.get? x, lastAt, lastAt, Option.none_or, entryAt, hplace, directoryAt, directoryAt,
      Option.or_none, hway]
    split <;> simp
  · intro f hf x hx
    rw [List.mem_singleton.1 hf, hway] at hx
    exact hwrites.ways x hx

/-! ## Several files -/

/-- Writes some files one after the other. -/
def writeAll : List OutputFile → Disk → Outcome (List DiskPath)
  | [], d => .keep d (pure [])
  | file :: files, d => (file.write d).andThen fun d path => (writeAll files d).map (path :: ·)

theorem writeAll_cons_ends {w : List DiskPath} : (writeAll (file :: files) d).Ends w d' ↔
    ∃ d₁, d.writeText file.path file.text = .ok d₁ ∧
      ∃ rest, (writeAll files d₁).Ends rest d' ∧ w = file.path :: rest := by
  rw [writeAll, Outcome.andThen_ends]
  constructor
  · rintro ⟨path, d₁, hpath, h⟩
    obtain ⟨hwrite, rfl⟩ := write_ends.1 hpath
    obtain ⟨rest, hrest, rfl⟩ := Outcome.map_ends.1 h
    exact ⟨d₁, hwrite, rest, hrest, rfl⟩
  · rintro ⟨d₁, hwrite, rest, hrest, rfl⟩
    exact ⟨_, d₁, write_ends.2 ⟨hwrite, rfl⟩, Outcome.map_ends.2 ⟨rest, hrest, rfl⟩⟩

/-- **What a run that writes files has written.** -/
theorem writeAll_spec (hd : d.Proper) (hfiles : ∀ f ∈ files, f.IsNamed) {w : List DiskPath}
    (h : (writeAll files d).Ends w d') :
    w = files.map OutputFile.path ∧ ∃ t, d' = d.withTree t ∧ WritesAll d files t := by
  induction files generalizing d w with
  | nil =>
    obtain ⟨h, rfl⟩ := h
    cases h
    exact ⟨rfl, d.tree, rfl, .nil hd⟩
  | cons file files ih =>
    obtain ⟨hfile, hfiles⟩ := List.forall_mem_cons.1 hfiles
    obtain ⟨d₁, hwrite, rest, hrest, rfl⟩ := writeAll_cons_ends.1 h
    obtain ⟨t, rfl, ht⟩ := writesAll_of_writeText hd hfile hwrite
    obtain ⟨rfl, t', rfl, ht'⟩ := ih (hd.withTree ht.wellFormed ht.grows) hfiles hrest
    exact ⟨rfl, t', rfl, ht.append ht'⟩

/-- Whether files can lie on a disk together: what is on the way to one of them is no file, and
none takes the place of a directory. -/
structure Compatible (d : Disk) (files : List OutputFile) : Prop where
  way : ∀ f ∈ files, ∀ x ∈ f.way d,
    (∀ b, d.tree.get? x ≠ some (.file b)) ∧ ∀ g ∈ files, x ≠ d.place g.path
  free : ∀ f ∈ files, d.tree.get? (d.place f.path) ≠ some .directory

theorem lastAt_eq_none {x : Location} (h : ∀ f ∈ files, x ≠ d.place f.path) :
    lastAt d x files = none := by
  induction files with
  | nil => rfl
  | cons file files ih =>
    obtain ⟨hfile, hfiles⟩ := List.forall_mem_cons.1 h
    rw [lastAt, ih hfiles, entryAt, if_neg hfile]
    rfl

theorem lastAt_file {x : Location} {e : Entry} (h : lastAt d x files = some e) :
    ∃ f ∈ files, x = d.place f.path ∧ e = .file f.text.toUTF8 := by
  induction files with
  | nil => cases h
  | cons file files ih =>
    rw [lastAt] at h
    cases hrest : lastAt d x files with
    | some e' =>
      rw [hrest, Option.some_or] at h
      obtain ⟨f, hf, hplace, he⟩ := ih (hrest.trans h)
      exact ⟨f, List.mem_cons_of_mem _ hf, hplace, he⟩
    | none =>
      rw [hrest, Option.none_or, entryAt] at h
      split at h
      · next hplace => exact ⟨file, by simp, hplace, (Option.some.inj h).symm⟩
      · cases h

theorem Compatible.left {written : List OutputFile} (h : Compatible d (written ++ files)) :
    Compatible d written where
  way f hf x hx := by
    obtain ⟨hfile, hplaces⟩ := h.way f (List.mem_append_left _ hf) x hx
    exact ⟨hfile, fun g hg => hplaces g (List.mem_append_left _ hg)⟩
  free f hf := h.free f (List.mem_append_left _ hf)

/-- Files that can lie on a disk together still can when some of them are there. -/
theorem Compatible.append {t : FileTree} {written : List OutputFile}
    (h : Compatible d (written ++ files)) (ht : WritesAll d written t) :
    Compatible (d.withTree t) files := by
  have hleft : ∀ f ∈ written, f ∈ written ++ files := fun f hf => List.mem_append_left _ hf
  have hright : ∀ f ∈ files, f ∈ written ++ files := fun f hf => List.mem_append_right _ hf
  constructor
  · intro g hg x hx
    obtain ⟨hfile, hplaces⟩ := h.way g (hright g hg) x hx
    refine ⟨fun b hb => ?_, fun f hf => hplaces f (hright f hf)⟩
    rw [Disk.withTree_tree, ht.get x, lastAt_eq_none fun f hf => hplaces f (hleft f hf),
      Option.none_or, directoryAt_eq] at hb
    -- What has been written is no file on the way to what is left, only directories.
    cases hold : d.tree.get? x with
    | none =>
      rw [hold] at hb
      split at hb <;> cases hb
    | some e =>
      rw [hold, Option.some_or] at hb
      exact hfile b (hold.trans hb)
  · intro g hg hdir
    have hout : ¬∃ f ∈ written, d.place g.path ∈ f.way d := by
      rintro ⟨f, hf, hway⟩
      exact (h.way f (hleft f hf) _ hway).2 g (hright g hg) rfl
    rw [Disk.withTree_place, Disk.withTree_tree, ht.get, directoryAt_eq, if_neg hout,
      Option.or_none] at hdir
    cases hlast : lastAt d (d.place g.path) written with
    | none =>
      rw [hlast, Option.none_or] at hdir
      exact h.free g (hright g hg) hdir
    | some e =>
      obtain ⟨f, -, -, rfl⟩ := lastAt_file hlast
      rw [hlast] at hdir
      cases hdir

/-- Each of several files at different places holds its text. -/
theorem lastAt_of_distinct (h : files.Pairwise fun f g => d.place f.path ≠ d.place g.path) :
    ∀ f ∈ files, lastAt d (d.place f.path) files = some (.file f.text.toUTF8) := by
  induction files with
  | nil => simp
  | cons file files ih =>
    obtain ⟨hfile, hfiles⟩ := List.pairwise_cons.1 h
    refine List.forall_mem_cons.2 ⟨?_, fun f hf => ?_⟩
    · rw [lastAt, lastAt_eq_none hfile, Option.none_or, entryAt, if_pos rfl]
    · rw [lastAt, ih hfiles f hf, Option.some_or]

/-- **Files that can lie on a disk together can be written.** -/
theorem writeAll_ok (hd : d.Sound) (hfiles : ∀ f ∈ files, f.IsNamed) (h : Compatible d files) :
    ∃ d', (writeAll files d).Ends (files.map OutputFile.path) d' := by
  induction files generalizing d with
  | nil => exact ⟨d, rfl, rfl⟩
  | cons file files ih =>
    obtain ⟨hfile, hfiles⟩ := List.forall_mem_cons.1 hfiles
    obtain ⟨p, name, hname, hpath⟩ := id hfile
    obtain ⟨hway, hplace⟩ := way_of_join hd.proper hname hpath
    obtain ⟨d₁, hwrite⟩ : ∃ d₁, d.writeText file.path file.text = .ok d₁ := by
      have hclash := h.way file (by simp)
      have hfree := h.free file (by simp)
      rw [hway] at hclash
      rw [hplace] at hfree
      rw [hpath]
      refine Disk.writeText_ok hd hname _ (fun x hx => (hclash x hx).1) (fun hself => ?_) hfree
      exact (hclash _ hself).2 file (by simp) hplace.symm
    obtain ⟨t, rfl, ht⟩ := writesAll_of_writeText hd.proper hfile hwrite
    obtain ⟨d', hrest⟩ := ih (hd.withTree ht.wellFormed ht.grows) hfiles
      (Compatible.append h ht)
    exact ⟨d', writeAll_cons_ends.2 ⟨_, hwrite, _, hrest, rfl⟩⟩

/-- A file that the tree holds was there before or was written. -/
theorem WritesAll.file_cases {t : FileTree} (h : WritesAll d files t) {x : Location} {b : ByteArray}
    (hx : t.get? x = some (.file b)) :
    d.tree.get? x = some (.file b) ∨ ∃ f ∈ files, x = d.place f.path := by
  rw [h.get] at hx
  cases hlast : lastAt d x files with
  | some e =>
    obtain ⟨f, hf, hplace, -⟩ := lastAt_file hlast
    exact Or.inr ⟨f, hf, hplace⟩
  | none =>
    rw [hlast, Option.none_or, directoryAt_eq] at hx
    cases hold : d.tree.get? x with
    | none =>
      rw [hold] at hx
      split at hx <;> cases hx
    | some e =>
      rw [hold, Option.some_or] at hx
      exact Or.inl hx

/-- What lies elsewhere stays as it is. -/
theorem WritesAll.keeps {t : FileTree} (h : WritesAll d files t) {x : Location} {e : Entry}
    (hx : ∀ f ∈ files, x ≠ d.place f.path) (he : d.tree.get? x = some e) : t.get? x = some e := by
  rw [h.get, lastAt_eq_none hx, he, Option.none_or, Option.some_or]

theorem lastAt_isSome : ∀ f ∈ files, (lastAt d (d.place f.path) files).isSome = true := by
  induction files with
  | nil => simp
  | cons file files ih =>
    refine List.forall_mem_cons.2 ⟨?_, fun f hf => ?_⟩
    · rw [lastAt, Option.isSome_or, entryAt, if_pos rfl, Option.isSome_some, Bool.or_true]
    · rw [lastAt, Option.isSome_or, ih f hf, Bool.true_or]

/-- **Files that a disk holds already** are written again without a change. -/
theorem writeAll_again (hd : d.Sound) (hfiles : ∀ f ∈ files, f.IsNamed)
    (hways : ∀ f ∈ files, ∀ x ∈ f.way d, d.tree.get? x = some .directory)
    (hlast : ∀ x e, lastAt d x files = some e → d.tree.get? x = some e) :
    ∃ t, (writeAll files d).Ends (files.map OutputFile.path) (d.withTree t) ∧ t.WellFormed ∧
      ∀ x, t.get? x = d.tree.get? x := by
  have hplaces : ∀ f ∈ files, ∃ b, d.tree.get? (d.place f.path) = some (.file b) := by
    intro f hf
    obtain ⟨e, he⟩ := Option.isSome_iff_exists.1 (lastAt_isSome (d := d) f hf)
    obtain ⟨g, -, -, rfl⟩ := lastAt_file he
    exact ⟨_, hlast _ _ he⟩
  have hcompatible : Compatible d files := by
    refine ⟨fun f hf x hx => ⟨fun b hb => ?_, fun g hg he => ?_⟩, fun f hf hdir => ?_⟩
    · rw [hways f hf x hx] at hb
      cases hb
    · obtain ⟨b, hb⟩ := hplaces g hg
      rw [← he, hways f hf x hx] at hb
      cases hb
    · obtain ⟨b, hb⟩ := hplaces f hf
      rw [hdir] at hb
      cases hb
  -- Nothing is in the way of the files, and each place has at last what it had before.
  obtain ⟨d', hends⟩ := writeAll_ok hd hfiles hcompatible
  obtain ⟨-, t, rfl, ht⟩ := writeAll_spec hd.proper hfiles hends
  refine ⟨t, hends, ht.wellFormed, fun x => ?_⟩
  rw [ht.get]
  cases hl : lastAt d x files with
  | some e => rw [Option.some_or, hlast x e hl]
  | none =>
    rw [Option.none_or, directoryAt_eq]
    split
    · next hway =>
      obtain ⟨f, hf, hx⟩ := hway
      rw [hways f hf x hx, Option.some_or]
    · exact Option.or_none

end OutputFile

/-! ## A generation -/

namespace Job

open OutputFile

variable {job : Job} {disk d d' : Disk} {installed : Option Stub.Tool} {patterns : List String}
variable {formatter : Stub.Formatter} {policy : Stub.ImportPolicy} {packages : List Package}
variable {files : List (String × OutputFile)} {w : List DiskPath}

/-- The manifest that is written, if one is wanted. -/
def manifests (job : Job) (manifest : Manifest) : List OutputFile :=
  if job.writesManifest then [job.manifestFile manifest] else []

theorem writeManifest_ends {manifest : Manifest} :
    (job.writeManifest d manifest).Ends w d' ↔ (writeAll (job.manifests manifest) d).Ends w d' := by
  rw [writeManifest, manifests]
  split
  · rw [Outcome.map_ends, writeAll_cons_ends]
    constructor
    · rintro ⟨path, hpath, rfl⟩
      obtain ⟨hwrite, rfl⟩ := write_ends.1 hpath
      exact ⟨d', hwrite, [], ⟨rfl, rfl⟩, rfl⟩
    · rintro ⟨d₁, hwrite, rest, ⟨hrest, rfl⟩, rfl⟩
      cases hrest
      exact ⟨_, write_ends.2 ⟨hwrite, rfl⟩, rfl⟩
  · rfl

theorem stubFiles_cons_ok_iff {package : Package} :
    (job.stubFiles formatter policy (package :: packages)).result = .ok files ↔
      ∃ file, (job.stubFile formatter policy package).result = .ok file ∧
        ∃ rest, (job.stubFiles formatter policy packages).result = .ok rest ∧
          files = (package.path, file) :: rest := by
  rw [stubFiles, Report.bind_ok_iff]
  refine exists_congr fun file => and_congr Iff.rfl ?_
  rw [Report.bind_ok_iff]
  refine exists_congr fun rest => and_congr Iff.rfl ?_
  rw [Report.result_pure, Except.ok.injEq, eq_comm]

/-- The stubs of packages come in their order. -/
theorem paths_of_stubFiles (h : (job.stubFiles formatter policy packages).result = .ok files) :
    files.map Prod.fst = packages.map Package.path ∧
      files.map (fun f => f.2.path) = packages.map job.outputPath := by
  induction packages generalizing files with
  | nil =>
    cases h
    exact ⟨rfl, rfl⟩
  | cons package packages ih =>
    obtain ⟨file, hfile, rest, hrest, rfl⟩ := stubFiles_cons_ok_iff.1 h
    obtain ⟨hpaths, houtputs⟩ := ih hrest
    obtain ⟨stub, text, -, -, rfl⟩ := stubFile_ok_iff.1 hfile
    simp only [List.map_cons, hpaths, houtputs, and_self]

/-- **Stubs are written like other files**, after they are all made. -/
theorem writeStubs_ends : (job.writeStubs formatter policy packages d).Ends w d' ↔
    ∃ files, (job.stubFiles formatter policy packages).result = .ok files ∧
      (writeAll (files.map Prod.snd) d).Ends w d' := by
  induction packages generalizing d w with
  | nil =>
    constructor
    · intro h
      exact ⟨[], rfl, h⟩
    · rintro ⟨files, hfiles, h⟩
      cases hfiles
      exact h
  | cons package packages ih =>
    rw [writeStubs, Outcome.andThen_ends]
    constructor
    · rintro ⟨file, d₁, ⟨hfile, rfl⟩, h⟩
      obtain ⟨path, d₂, hpath, h⟩ := Outcome.andThen_ends.1 h
      obtain ⟨hwrite, rfl⟩ := write_ends.1 hpath
      obtain ⟨paths, hpaths, rfl⟩ := Outcome.map_ends.1 h
      obtain ⟨rest, hrest, hall⟩ := ih.1 hpaths
      refine ⟨_, stubFiles_cons_ok_iff.2 ⟨file, hfile, rest, hrest, rfl⟩, ?_⟩
      exact writeAll_cons_ends.2 ⟨d₂, hwrite, paths, hall, rfl⟩
    · rintro ⟨files, hfiles, h⟩
      obtain ⟨file, hfile, rest, hrest, rfl⟩ := stubFiles_cons_ok_iff.1 hfiles
      obtain ⟨d₂, hwrite, paths, hpaths, rfl⟩ := writeAll_cons_ends.1 h
      refine ⟨file, d, ⟨hfile, rfl⟩, Outcome.andThen_ends.2 ⟨_, d₂, write_ends.2 ⟨hwrite, rfl⟩, ?_⟩⟩
      exact Outcome.map_ends.2 ⟨paths, ih.2 ⟨rest, hrest, hpaths⟩, rfl⟩

/-- The paths of the output end with plain names. -/
theorem isNamed_manifests (job : Job) (manifest : Manifest) :
    ∀ f ∈ job.manifests manifest, f.IsNamed := by
  intro f hf
  rw [manifests] at hf
  split at hf
  · rw [List.mem_singleton.1 hf]
    exact ⟨_, manifestName, isPlain_manifestName, rfl⟩
  · cases hf

theorem isNamed_stubFiles (hword : ∀ p ∈ packages, Source.isWord p.name = true)
    (h : (job.stubFiles formatter policy packages).result = .ok files) :
    ∀ f ∈ files.map Prod.snd, f.IsNamed := by
  intro f hf
  obtain ⟨pair, hpair, rfl⟩ := List.mem_map.1 hf
  have hpath : pair.2.path ∈ packages.map job.outputPath := by
    rw [← (paths_of_stubFiles h).2]
    exact List.mem_map.2 ⟨pair, hpair, rfl⟩
  obtain ⟨package, hpackage, hpath⟩ := List.mem_map.1 hpath
  exact ⟨_, _, isPlain_fileName (no_slash_of_isWord (hword package hpackage)), hpath.symm⟩

theorem prepare_ok_iff {l : Loader} {prepared : List Package × Stub.Formatter × Stub.ImportPolicy} :
    (job.prepare l installed patterns).result = .ok prepared ↔
      ∃ packages formatter, (l.load patterns).result = .ok packages ∧
        Stub.Formatter.ofKind job.formatter installed = .ok formatter ∧
          prepared = (packages, formatter, .ofPackages job.allowed packages) := by
  rw [prepare, Report.bind_ok_iff]
  refine exists_congr fun packages => ?_
  rw [Report.bind_ok_iff]
  constructor
  · rintro ⟨hload, formatter, hformatter, hrest⟩
    exact ⟨formatter, hload, hformatter, (Except.ok.inj hrest).symm⟩
  · rintro ⟨formatter, hload, hformatter, rfl⟩
    exact ⟨hload, formatter, hformatter, rfl⟩

/-- The stubs of the packages that some patterns select. -/
def Stubs (job : Job) (l : Loader) (installed : Option Stub.Tool) (patterns : List String)
    (files : List (String × OutputFile)) : Prop :=
  ∃ packages formatter, (l.load patterns).result = .ok packages ∧
    Stub.Formatter.ofKind job.formatter installed = .ok formatter ∧
      (job.stubFiles formatter (.ofPackages job.allowed packages) packages).result = .ok files

/-- What is rendered are the stubs. -/
theorem render_ok_iff : (job.render disk installed patterns).result = .ok files ↔
    ∃ l, job.loader disk = .ok l ∧ job.Stubs l installed patterns files := by
  rw [render, Report.bind_ok_iff]
  refine exists_congr fun l => and_congr Iff.rfl ?_
  rw [Report.bind_ok_iff]
  constructor
  · rintro ⟨prepared, hprepared, hfiles⟩
    obtain ⟨packages, formatter, hload, hformatter, rfl⟩ := prepare_ok_iff.1 hprepared
    exact ⟨packages, formatter, hload, hformatter, hfiles⟩
  · rintro ⟨packages, formatter, hload, hformatter, hfiles⟩
    exact ⟨_, prepare_ok_iff.2 ⟨packages, formatter, hload, hformatter, rfl⟩, hfiles⟩

/-- **The parts of a generation**: the manifest is written, the packages are loaded from the disk
that has it, and their stubs are written. -/
theorem generate_ends : (job.generate disk installed patterns).Ends w d' ↔
    ∃ l, job.loader disk = .ok l ∧
      ∃ first d₁, (writeAll (job.manifests l.module.manifest) disk).Ends first d₁ ∧
        ∃ files, job.Stubs { l with disk := d₁ } installed patterns files ∧
          ∃ rest, (writeAll (files.map Prod.snd) d₁).Ends rest d' ∧ w = first ++ rest := by
  rw [generate, Outcome.andThen_ends]
  constructor
  · rintro ⟨l, disk', ⟨hl, rfl⟩, h⟩
    obtain ⟨first, d₁, hmanifest, h⟩ := Outcome.andThen_ends.1 h
    obtain ⟨prepared, d₂, ⟨hprepared, rfl⟩, h⟩ := Outcome.andThen_ends.1 h
    obtain ⟨packages, formatter, hload, hformatter, rfl⟩ := prepare_ok_iff.1 hprepared
    obtain ⟨rest, hrest, rfl⟩ := Outcome.map_ends.1 h
    obtain ⟨files, hfiles, hwritten⟩ := writeStubs_ends.1 hrest
    exact ⟨l, hl, first, d₁, writeManifest_ends.1 hmanifest, files,
      ⟨packages, formatter, hload, hformatter, hfiles⟩, rest, hwritten, rfl⟩
  · rintro ⟨l, hl, first, d₁, hmanifest, files, ⟨packages, formatter, hload, hformatter, hfiles⟩,
      rest, hwritten, rfl⟩
    have hprepare := prepare_ok_iff.2 ⟨packages, formatter, hload, hformatter, rfl⟩
    have hstubs := Outcome.map_ends (f := (first ++ ·)).2
      ⟨rest, writeStubs_ends.2 ⟨files, hfiles, hwritten⟩, rfl⟩
    refine ⟨l, disk, ⟨hl, rfl⟩, Outcome.andThen_ends.2 ?_⟩
    refine ⟨first, d₁, writeManifest_ends.2 hmanifest, Outcome.andThen_ends.2 ?_⟩
    exact ⟨(packages, formatter, .ofPackages job.allowed packages), d₁, ⟨hprepare, rfl⟩, hstubs⟩

variable {l : Loader}

theorem loader_sound (hd : disk.Sound) (hl : job.loader disk = .ok l) : l.Sound :=
  Loader.create_sound hd hl

theorem loader_onTree (hl : job.loader disk = .ok l) (t : FileTree) :
    ({ l with disk := disk.withTree t } : Loader) = l.onTree t := by
  rw [Loader.onTree, (Loader.create_ok_iff.1 hl).2.1]

/-- **What a generation has done**: the manifest was written, the packages were loaded from the tree
that has it, and their stubs were written. -/
theorem generate_spec (hd : disk.Sound) (hl : job.loader disk = .ok l)
    (h : (job.generate disk installed patterns).Ends w d') :
    ∃ t₁ packages formatter files t,
      WritesAll disk (job.manifests l.module.manifest) t₁ ∧
      ((l.onTree t₁).load patterns).result = .ok packages ∧
      Stub.Formatter.ofKind job.formatter installed = .ok formatter ∧
      (job.stubFiles formatter (.ofPackages job.allowed packages) packages).result = .ok files ∧
      (∀ p ∈ packages, Source.isWord p.name = true) ∧
      WritesAll (disk.withTree t₁) (files.map Prod.snd) t ∧ d' = disk.withTree t ∧
      w = (job.manifests l.module.manifest).map OutputFile.path ++ packages.map job.outputPath := by
  obtain ⟨l', hl', first, d₁, hfirst, files, ⟨packages, formatter, hload, hformatter, hstubs⟩, rest,
    hrest, rfl⟩ := generate_ends.1 h
  obtain rfl : l = l' := Except.ok.inj (hl.symm.trans hl')
  obtain ⟨rfl, t₁, rfl, ht₁⟩ := writeAll_spec hd.proper (job.isNamed_manifests l.module.manifest) hfirst
  rw [loader_onTree hl] at hload
  have hsound : (l.onTree t₁).Sound := by
    refine (loader_sound hd hl).onTree ht₁.wellFormed ?_
    rw [(Loader.create_ok_iff.1 hl).2.1]
    exact ht₁.grows
  have hword : ∀ p ∈ packages, Source.isWord p.name = true := fun p hp =>
    (Loader.package_of_load hsound hload hp).choose_spec.2.2
  obtain ⟨rfl, t, rfl, ht⟩ := writeAll_spec (hd.withTree ht₁.wellFormed ht₁.grows).proper
    (isNamed_stubFiles hword hstubs) hrest
  refine ⟨t₁, packages, formatter, files, t, ht₁, hload, hformatter, hstubs, hword, ht, rfl, ?_⟩
  rw [← (paths_of_stubFiles hstubs).2, List.map_map]
  rfl

end Job

end Understudy

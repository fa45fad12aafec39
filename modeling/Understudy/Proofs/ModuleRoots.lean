import Mathlib
import Understudy.Proofs.LoadedPackages

/-!
# Where a module is found

The module of a directory is looked for on the way up from the absolute form of the directory, so
its root is an absolute path, and the manifest that was found there is a file: a loader that is made
on a sound disk reaches its module (`create_sound`). The same module is found on a disk that has
grown, as long as nothing has changed where it is looked for (`discover_again`).
-/

set_option autoImplicit false

namespace Understudy.Files

open DiskPath

namespace DiskPath

variable {p q : DiskPath}

/-- The path above has one segment less, or is empty where there is one only. -/
theorem parent?_eq_some (h : p.parent? = some q) :
    ∃ s rest, dropIdle p.segments.reverse = s :: rest ∧
      (rest = [] ∧ s ≠ .ofText "" ∧ q = ⟨""⟩ ∨
        rest ≠ [] ∧ q.moves = (movesOf rest).reverse ∧
          (q.isAbsolute = true ↔ rest.getLast? = some (.ofText ""))) := by
  have hslash : ∀ s ∈ dropIdle p.segments.reverse, RawText.slash ∉ s.bytes := fun s hs =>
    no_slash_of_mem (List.mem_reverse.1 (mem_of_mem_dropIdle hs))
  rw [parent?] at h
  cases hr : dropIdle p.segments.reverse with
  | nil =>
    rw [hr] at h
    cases h
  | cons s rest =>
    rw [hr] at h hslash
    refine ⟨s, rest, rfl, ?_⟩
    cases rest with
    | nil =>
      dsimp only at h
      split at h
      · cases h
      · next hs =>
        cases h
        exact Or.inl ⟨rfl, fun he => hs (beq_iff_eq.2 he), rfl⟩
    | cons s' rest =>
      cases h
      have hrest : ∀ u ∈ dropIdle (s' :: rest), RawText.slash ∉ u.bytes := fun u hu =>
        hslash u (List.mem_cons_of_mem _ (mem_of_mem_dropIdle hu))
      have hspec := ofReversedSegments_spec (dropIdle_ne_nil (by simp)) hrest
      rw [movesOf_dropIdle, getLast?_dropIdle] at hspec
      exact Or.inr ⟨List.cons_ne_nil _ _, hspec⟩

/-- The path above an absolute path is absolute. -/
theorem isAbsolute_parent? (hp : p.isAbsolute = true) (h : p.parent? = some q) :
    q.isAbsolute = true := by
  have hne : p.raw ≠ "" := by
    intro he
    rw [isAbsolute, he] at hp
    exact absurd hp (by decide)
  have hlast : (dropIdle p.segments.reverse).getLast? = some (.ofText "") := by
    rw [getLast?_dropIdle, List.getLast?_reverse]
    exact (isAbsolute_iff hne).1 hp
  obtain ⟨s, rest, hr, ⟨rfl, hs, -⟩ | ⟨hrest, -, habsolute⟩⟩ := parent?_eq_some h
  · -- The root alone has no path above it.
    rw [hr, List.getLast?_singleton, Option.some.injEq] at hlast
    exact absurd hlast hs
  · rw [hr, List.getLast?_cons_of_ne_nil hrest] at hlast
    exact habsolute.2 hlast

/-- The moves of the path above are the moves but the last. -/
theorem moves_parent? (h : p.parent? = some q) : ∃ m, p.moves = q.moves ++ m := by
  have hmoves : (movesOf (dropIdle p.segments.reverse)).reverse = p.moves := by
    rw [movesOf_dropIdle, movesOf_reverse, List.reverse_reverse]
    rfl
  obtain ⟨s, rest, hr, ⟨-, -, rfl⟩ | ⟨-, hq, -⟩⟩ := parent?_eq_some h
  · exact ⟨p.moves, rfl⟩
  · refine ⟨(movesOf [s]).reverse, ?_⟩
    rw [hq, ← hmoves, hr, ← List.reverse_append, ← movesOf_append]
    rfl

/-- What holds of a path, and of the path above each path it holds of, holds of all paths above. -/
theorem ancestors_induction {P : DiskPath → Prop} (h : q ∈ p.ancestors) (hp : P p)
    (hstep : ∀ {p q : DiskPath}, P p → p.parent? = some q → P q) : P q := by
  rw [ancestors] at h
  generalize p.segments.length = n at h
  induction n generalizing p with
  | zero =>
    rw [ancestors.go, List.mem_singleton] at h
    rwa [h]
  | succ n ih =>
    rw [ancestors.go] at h
    split at h
    · next parent hparent =>
      rcases List.mem_cons.1 h with rfl | h
      · exact hp
      · exact ih (hstep hp hparent) h
    · rw [List.mem_singleton] at h
      rwa [h]

theorem moves_of_mem_ancestors (h : q ∈ p.ancestors) : ∃ m, p.moves = q.moves ++ m := by
  refine ancestors_induction (P := fun q => ∃ m, p.moves = q.moves ++ m) h
    ⟨[], (List.append_nil _).symm⟩ ?_
  rintro p' q' ⟨m, hm⟩ hparent
  obtain ⟨m', hm'⟩ := moves_parent? hparent
  exact ⟨m' ++ m, by rw [hm, hm', List.append_assoc]⟩

theorem isAbsolute_of_mem_ancestors (hp : p.isAbsolute = true) (h : q ∈ p.ancestors) :
    q.isAbsolute = true :=
  ancestors_induction (P := fun q => q.isAbsolute = true) h hp isAbsolute_parent?

/-- The steps of a path to names and to parents stay where they begin. -/
theorem isAbsolute_join_step {c : Component} (hp : p.isAbsolute = true) (hc : c ∈ q.components)
    (hroot : c ≠ .root) : (p.join ⟨c.raw⟩).isAbsolute = true := by
  have hne : p.raw ≠ "" := by
    intro he
    rw [isAbsolute, he] at hp
    exact absurd hp (by decide)
  refine (isAbsolute_join hne ?_).trans hp
  cases c with
  | root => exact absurd rfl hroot
  | here => rfl
  | up => rfl
  | name name => exact (Modules.Loader.isPlain_of_mem_components hc).relative

/-- **The absolute form of a path** is absolute. -/
theorem isAbsolute_absolute {cwd : DiskPath} (hcwd : cwd.isAbsolute = true) :
    (p.absolute cwd).isAbsolute = true := by
  have hfold : ∀ cs : List Component, (∀ c ∈ cs, c ∈ p.components ∧ c ≠ .root) →
      ∀ base : DiskPath, base.isAbsolute = true →
        (cs.foldl (fun q c => q.join ⟨c.raw⟩) base).isAbsolute = true := by
    intro cs
    induction cs with
    | nil => exact fun _ base hbase => hbase
    | cons c cs ih =>
      intro hcs base hbase
      obtain ⟨⟨hc, hroot⟩, hcs⟩ := List.forall_mem_cons.1 hcs
      exact ih hcs _ (isAbsolute_join_step hbase hc hroot)
  have hsteps : ∀ c ∈ p.components.filter (fun c => c != .root && c != .here),
      c ∈ p.components ∧ c ≠ .root := by
    intro c hc
    obtain ⟨hmem, hc⟩ := List.mem_filter.1 hc
    rw [Bool.and_eq_true, bne_iff_ne] at hc
    exact ⟨hmem, hc.1⟩
  have hbase : (if p.isAbsolute then p.rootOf else cwd).isAbsolute = true := by
    split
    · unfold rootOf
      split <;> decide
    · exact hcwd
  have hresult := hfold _ hsteps _ hbase
  -- The steps lead on from the root of the path or from the current directory, both absolute, and a
  -- slash at the end of the path is put back.
  rw [absolute]
  split
  · refine (isAbsolute_join ?_ (by decide)).trans hresult
    intro he
    rw [isAbsolute, he] at hresult
    exact absurd hresult (by decide)
  · exact hresult

end DiskPath

namespace Disk

variable {d : Disk} {p : DiskPath} {name : RawText}

/-- **A file is found in a directory** if the directory is reached and holds it. -/
theorem isFile_join_name_iff (hd : d.Sound) (hname : IsPlain name) :
    d.isFile (p.join ⟨name⟩) = true ↔
      d.Reaches p ∧ ∃ b, d.tree.get? (d.place p ++ [name]) = some (.file b) := by
  constructor
  · intro h
    exact isFile_join_name_ok hd.proper hname h
  · rintro ⟨hreach, hfile⟩
    exact (isFile_join_name hd hreach hname).2 hfile

end Disk

end Understudy.Files

namespace Understudy.Modules

open Files DiskPath

variable {d : Disk} {directory : DiskPath} {target : Target} {m : GoModule} {l : Loader}

/-- What it takes to find the module of a directory. -/
theorem GoModule.discover_ok_iff : GoModule.discover d directory = .ok m ↔
    ∃ start, d.absolute directory = .ok start ∧ nearestManifest? d start = some m.root ∧
      Manifest.load d (m.root.join ⟨manifestName⟩) = .ok m.manifest := by
  rw [GoModule.discover]
  cases habs : d.absolute directory with
  | error fault => simp [Except.mapError, bind, Except.bind]
  | ok start =>
    simp only [Except.mapError, bind, Except.bind, Except.ok.injEq, exists_eq_left']
    split
    · next hnone => simp [hnone, throw, throwThe, MonadExceptOf.throw]
    · next root hroot =>
      cases hload : Manifest.load d (root.join ⟨manifestName⟩) with
      | error failure =>
        simp only [hroot, Option.some.injEq, reduceCtorEq, false_iff, not_and]
        rintro rfl
        rw [hload]
        nofun
      | ok manifest =>
        simp only [hroot, Option.some.injEq, pure, Except.pure, Except.ok.injEq]
        constructor
        · rintro rfl
          exact ⟨rfl, hload⟩
        · rintro ⟨rfl, hm⟩
          rw [hload] at hm
          cases hm
          rfl

theorem isPlain_manifestName : IsPlain manifestName := by decide

/-- The root of a module is an absolute path. -/
theorem GoModule.isAbsolute_root (hcwd : d.cwd.isAbsolute = true)
    (h : GoModule.discover d directory = .ok m) : m.root.isAbsolute = true := by
  obtain ⟨start, hstart, hroot, -⟩ := GoModule.discover_ok_iff.1 h
  have habs : start.isAbsolute = true := by
    rw [Disk.absolute] at hstart
    split at hstart
    · cases hstart
    · cases hstart
      exact isAbsolute_absolute hcwd
  exact isAbsolute_of_mem_ancestors habs (List.mem_of_find?_eq_some hroot)

/-- There is a manifest in the root of a module. -/
theorem GoModule.manifest_root (hd : d.Proper) (h : GoModule.discover d directory = .ok m) :
    d.Reaches m.root ∧ ∃ b, d.tree.get? (d.place m.root ++ [manifestName]) = some (.file b) := by
  obtain ⟨start, -, hroot, -⟩ := GoModule.discover_ok_iff.1 h
  exact Disk.isFile_join_name_ok hd isPlain_manifestName
    (List.find?_some (p := fun r : DiskPath => d.isFile (r.join ⟨manifestName⟩)) hroot)

theorem Loader.create_ok_iff : Loader.create d directory target = .ok l ↔
    GoModule.discover d directory = .ok l.module ∧ l.disk = d ∧ l.target = target ∧
      ∃ start, d.absolute directory = .ok start ∧
        l.cwd = (start.relativeTo? l.module.root).getD ⟨""⟩ := by
  rw [Loader.create]
  cases hm : GoModule.discover d directory with
  | error failure => exact ⟨nofun, fun h => by cases h.1⟩
  | ok m =>
    cases hstart : d.absolute directory with
    | error fault =>
      constructor
      · nofun
      · rintro ⟨-, -, -, start, h, -⟩
        cases h
    | ok start =>
      constructor
      · intro h
        cases h
        exact ⟨rfl, rfl, rfl, start, rfl, rfl⟩
      · obtain ⟨disk, module, cwd, target'⟩ := l
        rintro ⟨h, rfl, rfl, start', h', hcwd⟩
        cases h
        cases h'
        dsimp only at hcwd
        subst hcwd
        rfl

/-- A loader that is made belongs to a module. -/
theorem Loader.create_rooted (hd : d.Proper) (h : Loader.create d directory target = .ok l) :
    l.Rooted := by
  obtain ⟨hm, hdisk, -, -⟩ := Loader.create_ok_iff.1 h
  refine ⟨by rwa [hdisk], fun he => ?_⟩
  have habs := GoModule.isAbsolute_root hd.absolute hm
  rw [isAbsolute, he] at habs
  exact absurd habs (by decide)

/-- **A loader reaches its module.** -/
theorem Loader.create_sound (hd : d.Sound) (h : Loader.create d directory target = .ok l) :
    l.Sound := by
  obtain ⟨hm, hdisk, -, -⟩ := Loader.create_ok_iff.1 h
  refine ⟨by rwa [hdisk], (Loader.create_rooted hd.proper h).root, ?_⟩
  rw [hdisk]
  exact (GoModule.manifest_root hd.proper hm).1

/-! ## Finding a module again -/

/-- The directories in which a manifest is looked for until the root is found. -/
def searched (start root : DiskPath) : List DiskPath :=
  start.ancestors.takeWhile (· != root) ++ [root]

/-- Whether a disk has been left alone where a module is looked for: no directory on the way was
made, and the manifests that are looked at are the same. -/
structure KeepsModule (d d' : Disk) (start root : DiskPath) : Prop where
  way : ∀ x ∈ d.onTheWay start, d.tree.get? x = none → d'.tree.get? x = none
  manifests : ∀ a ∈ searched start root, d'.tree.get? (d.place a ++ [manifestName]) =
    d.tree.get? (d.place a ++ [manifestName])

variable {t : FileTree}

/-- **A module is found again** on a disk that has grown elsewhere. -/
theorem GoModule.discover_again (hd : d.Sound) (hwf : t.WellFormed)
    (hgrows : FileTree.Grows d.tree t) (h : GoModule.discover d directory = .ok m)
    (hkeeps : ∀ start, d.absolute directory = .ok start →
      KeepsModule d (d.withTree t) start m.root) :
    GoModule.discover (d.withTree t) directory = .ok m := by
  have hd' := hd.withTree hwf hgrows
  have hreach := (GoModule.manifest_root hd.proper h).1
  obtain ⟨start, hstart, hroot, hload⟩ := GoModule.discover_ok_iff.1 h
  obtain ⟨hway, hmanifests⟩ := hkeeps start hstart
  have habs : start.isAbsolute = true := by
    rw [Disk.absolute] at hstart
    split at hstart
    · cases hstart
    · cases hstart
      exact isAbsolute_absolute hd.absolute
  obtain ⟨hfile, before, after, hancestors, hbefore⟩ := List.find?_eq_some_iff_append.1 hroot
  have hne : ∀ a ∈ before, (a != m.root) = true := by
    intro a ha
    rw [bne_iff_ne]
    rintro rfl
    have hno := hbefore _ ha
    rw [hfile] at hno
    cases hno
  have hsearched : searched start m.root = before ++ [m.root] := by
    rw [searched, hancestors, List.takeWhile_append_of_pos hne,
      List.takeWhile_cons_of_neg (by simp), List.append_nil]
  obtain ⟨b, hb⟩ := ((Disk.isFile_join_name_iff hd isPlain_manifestName).1 hfile).2
  have hb' : t.get? (d.place m.root ++ [manifestName]) = some (.file b) := by
    rw [← hb]
    exact hmanifests m.root (by rw [hsearched]; simp)
  have hfile' : (d.withTree t).isFile (m.root.join ⟨manifestName⟩) = true :=
    (Disk.isFile_join_name_iff hd' isPlain_manifestName).2 ⟨hreach.grows hgrows, b, hb'⟩
  refine GoModule.discover_ok_iff.2 ⟨start, hstart, ?_, ?_⟩
  · refine List.find?_eq_some_iff_append.2 ⟨hfile', before, after, hancestors, fun a ha => ?_⟩
    -- A manifest that is found now would have been found before.
    have hno := hbefore a ha
    rw [Bool.not_eq_true'] at hno ⊢
    rw [← Bool.not_eq_true]
    intro hfound
    obtain ⟨hreach', b', hb'⟩ := (Disk.isFile_join_name_iff hd' isPlain_manifestName).1 hfound
    have hanc : a ∈ start.ancestors := by
      rw [hancestors]
      exact List.mem_append_left _ ha
    have hold : d.isFile (a.join ⟨manifestName⟩) = true := by
      refine (Disk.isFile_join_name_iff hd isPlain_manifestName).2 ⟨fun x hx => ?_, b', ?_⟩
      · have hdir : t.get? x = some .directory := hreach' x hx
        cases hx' : d.tree.get? x with
        | none =>
          have hxs : x ∈ d.onTheWay start := by
            obtain ⟨ms, hms⟩ := moves_of_mem_ancestors hanc
            rw [Disk.onTheWay, join_absolute (isAbsolute_of_mem_ancestors habs hanc)] at hx
            rw [Disk.onTheWay, join_absolute habs, hms, passed_append]
            exact List.mem_append_left _ hx
          have hnone := hway x hxs hx'
          rw [Disk.withTree_tree, hdir] at hnone
          cases hnone
        | some e =>
          cases e with
          | directory => rfl
          | file bytes =>
            obtain ⟨bytes', hbytes⟩ := hgrows.file x bytes hx'
            rw [hdir] at hbytes
            cases hbytes
      · rw [← hb']
        exact (hmanifests a (by rw [hsearched]; exact List.mem_append_left _ ha)).symm
    rw [hold] at hno
    cases hno
  · rw [← hload, Manifest.load, Manifest.load,
      Disk.readText_join_name hd.proper (Disk.refusal?_none hd _) hreach isPlain_manifestName hb]
    rw [Disk.readText_join_name hd'.proper (Disk.refusal?_none hd' _) (hreach.grows hgrows)
      isPlain_manifestName hb']

end Understudy.Modules

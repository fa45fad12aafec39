import Mathlib
import Understudy.Modules.Loader
import Understudy.Proofs.DiskPlaces

/-!
# Directories and the source files in them

What a loader sees of a disk: the directories that a recursive pattern walks through, and the names
of the source files in a directory. Both are sorted, so they depend on what the tree holds and not
on the order in which it lists its entries (`mem_walk`, `walk_sorted`, `selectedNames_congr`).

A directory is passed over for its name or for a manifest, on itself or on the way to it. When a
tree grows, more directories can be passed over (`isSkippedBelow_grows`), and what is passed over
newly lies in or below the directory of a manifest that was not there before
(`exists_manifest_of_skipped`).
-/

set_option autoImplicit false

namespace Understudy.Files

/-! ## The order of names -/

instance byteOrder : LinearOrder UInt8 where
  le_refl := UInt8.le_refl
  le_trans _ _ _ := UInt8.le_trans
  lt_iff_le_not_ge a b := by
    rw [UInt8.not_le]
    exact ⟨fun h => ⟨UInt8.le_of_lt h, h⟩, And.right⟩
  le_antisymm _ _ := UInt8.le_antisymm
  le_total := UInt8.le_total
  toDecidableLE := inferInstance

/-- Names are ordered by their bytes. -/
instance : LinearOrder RawText := .lift' RawText.bytes fun _ _ h => RawText.bytes_inj.1 h

end Understudy.Files

namespace Understudy.Files.FileTree

variable {t : FileTree} {l : Location}

/-! ## Entries of a directory -/

theorem lookup_eq_some {l : Location} {e : Entry} :
    t.entries.lookup l = some e ↔ (l, e) ∈ t.entries := by
  obtain ⟨es, hnodup⟩ := t
  dsimp only
  induction es with
  | nil => simp
  | cons p es ih =>
    obtain ⟨m, e'⟩ := p
    rw [List.map_cons, List.nodup_cons] at hnodup
    rw [List.lookup_cons, List.mem_cons]
    by_cases hl : l = m
    · subst hl
      have hout : (l, e) ∉ es := fun h => hnodup.1 (List.mem_map.2 ⟨_, h, rfl⟩)
      simp [hout, eq_comm]
    · have hne : (l == m) = false := by simpa using hl
      rw [hne]
      simp [hl, ih hnodup.2]

theorem get?_of_ne_nil (hl : l ≠ []) : t.get? l = t.entries.lookup l := by
  have hempty : l.isEmpty = false := by simpa using hl
  rw [get?, hempty, if_neg (by simp)]

theorem mem_children {name : RawText} {e : Entry} :
    (name, e) ∈ t.children l ↔ t.get? (l ++ [name]) = some e := by
  rw [get?_of_ne_nil (by simp), lookup_eq_some, children, List.mem_filterMap]
  constructor
  · rintro ⟨⟨m, e'⟩, hmem, h⟩
    dsimp only at h
    split at h
    · next n hm =>
      cases h
      rw [List.isPrefixOf?_eq_some_iff_append_eq] at hm
      exact hm ▸ hmem
    · cases h
  · intro h
    refine ⟨_, h, ?_⟩
    dsimp only
    rw [List.isPrefixOf?_eq_some_iff_append_eq.2 rfl]

theorem mem_directoriesBelow {names : Location} :
    names ∈ t.directoriesBelow l ↔ names ≠ [] ∧ t.get? (l ++ names) = some .directory := by
  rw [directoriesBelow, List.mem_filterMap]
  constructor
  · rintro ⟨⟨m, e⟩, hmem, h⟩
    dsimp only at h
    split at h
    · next name rest hm =>
      cases h
      rw [List.isPrefixOf?_eq_some_iff_append_eq] at hm
      refine ⟨by simp, ?_⟩
      rw [get?_of_ne_nil (by simp), lookup_eq_some, hm]
      exact hmem
    · cases h
  · rintro ⟨hne, h⟩
    obtain ⟨name, rest, rfl⟩ := List.exists_cons_of_ne_nil hne
    rw [get?_of_ne_nil (by simp), lookup_eq_some] at h
    refine ⟨_, h, ?_⟩
    dsimp only
    rw [List.isPrefixOf?_eq_some_iff_append_eq.2 rfl]

theorem entries_pairwise (t : FileTree) : t.entries.Pairwise fun a b => a.1 ≠ b.1 :=
  List.pairwise_map.1 t.nodup

theorem children_pairwise (t : FileTree) (l : Location) :
    (t.children l).Pairwise fun a b => a.1 ≠ b.1 := by
  refine List.Pairwise.filterMap _ ?_ t.entries_pairwise
  rintro ⟨m, e⟩ ⟨m', e'⟩ hne b hb b' hb' heq
  dsimp only at hb hb' hne
  split at hb
  · next n hm =>
    split at hb'
    · next n' hm' =>
      cases hb
      cases hb'
      dsimp only at heq
      rw [List.isPrefixOf?_eq_some_iff_append_eq] at hm hm'
      exact hne (by rw [← hm, ← hm', heq])
    · cases hb'
  · cases hb

theorem nodup_directoriesBelow (t : FileTree) (l : Location) : (t.directoriesBelow l).Nodup := by
  refine List.Pairwise.filterMap _ ?_ t.entries_pairwise
  rintro ⟨m, e⟩ ⟨m', e'⟩ hne b hb b' hb' heq
  dsimp only at hb hb' hne
  split at hb
  · next hm =>
    split at hb'
    · next hm' =>
      cases hb
      cases hb'
      rw [List.isPrefixOf?_eq_some_iff_append_eq] at hm hm'
      exact hne (by rw [← hm, ← hm', heq])
    · cases hb'
  · cases hb

end Understudy.Files.FileTree

namespace Understudy.Modules.Loader

open Files

variable {t t' : FileTree} {start : Location} {names : Location}

/-! ## Directories that are passed over -/

theorem isFileAt_iff {l : Location} : isFileAt t l = true ↔ ∃ b, t.get? l = some (.file b) := by
  rw [isFileAt]
  cases t.get? l with
  | none => simp
  | some e => cases e <;> simp

theorem isFileAt_grows (h : FileTree.Grows t t') {l : Location} (hl : isFileAt t l = true) :
    isFileAt t' l = true := by
  obtain ⟨b, hb⟩ := isFileAt_iff.1 hl
  exact isFileAt_iff.2 (h.file l b hb)

/-- What is passed over is passed over in a tree that has grown. -/
theorem isSkippedBelow_grows (h : FileTree.Grows t t')
    (hs : isSkippedBelow t start names = true) : isSkippedBelow t' start names = true := by
  induction names generalizing start with
  | nil => exact hs
  | cons name names ih =>
    rw [isSkippedBelow, Bool.or_eq_true, Bool.or_eq_true] at hs ⊢
    rcases hs with (hs | hs) | hs
    · exact Or.inl (Or.inl hs)
    · exact Or.inl (Or.inr (isFileAt_grows h hs))
    · exact Or.inr (ih hs)

/-- What is passed over newly lies in or below a directory that has got a manifest. -/
theorem exists_manifest_of_skipped (hs : isSkippedBelow t start names = false)
    (hs' : isSkippedBelow t' start names = true) :
    ∃ pre post, names = pre ++ post ∧ pre ≠ [] ∧
      isFileAt t (start ++ pre ++ [manifestName]) = false ∧
      isFileAt t' (start ++ pre ++ [manifestName]) = true := by
  induction names generalizing start with
  | nil =>
    rw [isSkippedBelow] at hs'
    cases hs'
  | cons name names ih =>
    rw [isSkippedBelow, Bool.or_eq_false_iff, Bool.or_eq_false_iff] at hs
    rw [isSkippedBelow, Bool.or_eq_true, Bool.or_eq_true] at hs'
    obtain ⟨⟨hname, hfile⟩, hrest⟩ := hs
    rcases hs' with (hs' | hs') | hs'
    · rw [hname] at hs'
      cases hs'
    · exact ⟨[name], names, rfl, by simp, by simpa using hfile, by simpa using hs'⟩
    · obtain ⟨pre, post, rfl, -, hold, hnew⟩ := ih hrest hs'
      exact ⟨name :: pre, post, rfl, by simp, by simpa using hold, by simpa using hnew⟩

/-- The order of directories in a walk. -/
theorem walk_le {a b : Location} :
    (!b.lex a fun m n => decide (m < n)) = true ↔ a ≤ b := by
  have hlex : (b.lex a fun m n => decide (m < n)) = true ↔ b < a := by
    rw [List.lex_eq_true_iff_lex]
    simp only [decide_eq_true_eq]
    rfl
  rw [Bool.not_eq_true', ← Bool.not_eq_true, hlex, not_lt]

/-- **A walk visits the directories that are not passed over.** -/
theorem mem_walk : names ∈ walk t start ↔
    names ≠ [] ∧ t.get? (start ++ names) = some .directory ∧
      isSkippedBelow t start names = false := by
  rw [walk, List.mem_mergeSort, List.mem_filter, FileTree.mem_directoriesBelow]
  simp [and_assoc]

theorem walk_sorted (t : FileTree) (start : Location) : (walk t start).Pairwise (· < ·) := by
  have hle : (walk t start).Pairwise fun a b => a ≤ b := by
    refine (List.pairwise_mergeSort ?_ ?_ _).imp fun h => walk_le.1 h
    · intro a b c hab hbc
      exact walk_le.2 (le_trans (walk_le.1 hab) (walk_le.1 hbc))
    · intro a b
      rw [Bool.or_eq_true, walk_le, walk_le]
      exact le_total a b
  have hne : (walk t start).Pairwise fun a b => a ≠ b :=
    (List.mergeSort_perm _ _).nodup_iff.2 ((FileTree.nodup_directoriesBelow t start).filter _)
  exact (hle.and hne).imp fun h => lt_of_le_of_ne h.1 h.2

/-! ## Source files of a directory -/

/-- Whether a file of this name is read by a loader. -/
def isSelectedName (l : Loader) (name : String) : Bool :=
  isSourceName name && l.target.matchesFileName name

/-- The name of an entry, if it is that of a file that is read. -/
def selectedName? (l : Loader) : RawText × Entry → Option String
  | (name, .file _) => name.text?.filter l.isSelectedName
  | _ => none

theorem selectedNames_eq (l : Loader) (entries : List (RawText × Entry)) :
    l.selectedNames entries =
      (entries.filterMap l.selectedName?).mergeSort fun a b => decide (a ≤ b) := rfl

theorem selectedNames_singleton {l : Loader} {entries : List (RawText × Entry)} {name : String}
    (h : entries.filterMap l.selectedName? = [name]) : l.selectedNames entries = [name] := by
  rw [selectedNames_eq, h, List.mergeSort_singleton]

theorem mem_selectedNames {l : Loader} {loc : Location} {name : String} :
    name ∈ l.selectedNames (t.children loc) ↔
      l.isSelectedName name = true ∧ ∃ b, t.get? (loc ++ [.ofText name]) = some (.file b) := by
  rw [selectedNames, List.mem_mergeSort, List.mem_filterMap]
  constructor
  · rintro ⟨⟨n, e⟩, hmem, h⟩
    rw [FileTree.mem_children] at hmem
    cases e with
    | directory => cases h
    | file b =>
      obtain ⟨htext, hs⟩ := Option.filter_eq_some_iff.1 h
      rw [RawText.eq_ofText_of_text? htext] at hmem
      exact ⟨hs, b, hmem⟩
  · rintro ⟨hs, b, hb⟩
    refine ⟨(.ofText name, .file b), FileTree.mem_children.2 hb, ?_⟩
    exact Option.filter_eq_some_iff.2 ⟨RawText.text?_ofText name, hs⟩

theorem nodup_selectedNames (l : Loader) (t : FileTree) (loc : Location) :
    (l.selectedNames (t.children loc)).Nodup := by
  refine (List.mergeSort_perm _ _).nodup_iff.2 ?_
  refine List.Pairwise.filterMap _ ?_ (t.children_pairwise loc)
  rintro ⟨n, e⟩ ⟨n', e'⟩ hne b hb b' hb' heq
  cases e with
  | directory => cases hb
  | file _ =>
    cases e' with
    | directory => cases hb'
    | file _ =>
      -- Names that spell one text are one name.
      have hn := RawText.eq_ofText_of_text? (Option.filter_eq_some_iff.1 hb).1
      have hn' := RawText.eq_ofText_of_text? (Option.filter_eq_some_iff.1 hb').1
      exact hne (by rw [hn, hn', heq])

theorem selectedNames_sorted (l : Loader) (entries : List (RawText × Entry)) :
    (l.selectedNames entries).Pairwise fun a b => a ≤ b := by
  refine (List.pairwise_mergeSort ?_ ?_ _).imp fun h => of_decide_eq_true h
  · intro a b c hab hbc
    exact decide_eq_true (le_trans (of_decide_eq_true hab) (of_decide_eq_true hbc))
  · intro a b
    simpa using le_total a b

/-- The names of the source files in a directory increase. -/
theorem selectedNames_lt (l : Loader) (t : FileTree) (loc : Location) :
    (l.selectedNames (t.children loc)).Pairwise fun a b => a < b :=
  ((selectedNames_sorted l _).and (nodup_selectedNames l t loc)).imp
    fun h => lt_of_le_of_ne h.1 h.2

/-- **The source files of a directory** are listed in one way, whatever the order of the entries. -/
theorem selectedNames_congr {l : Loader} {loc : Location}
    (h : ∀ name, l.isSelectedName name = true →
      ((∃ b, t.get? (loc ++ [.ofText name]) = some (.file b)) ↔
        ∃ b, t'.get? (loc ++ [.ofText name]) = some (.file b))) :
    l.selectedNames (t.children loc) = l.selectedNames (t'.children loc) := by
  refine (selectedNames_lt l t loc).eq_of_mem_iff (selectedNames_lt l t' loc) fun {name} => ?_
  rw [mem_selectedNames, mem_selectedNames]
  exact and_congr_right fun hs => h name hs

end Understudy.Modules.Loader

import Mathlib
import Understudy.Proofs.PathMoves

/-!
# Places on a disk

Reading and writing follow a path segment by segment, and what happens on the way depends on the
tree. Where the path leads does not: `landing` says it from the moves alone, and every path of a
disk has a `place`. So a path can be compared with another one, and with what a file tree holds.

> **a file that is written lies at its place, the directories on the way to it are made, and all
> else is as it was** (`writeText_spec`), and
> **it can be written unless a file lies on the way or a directory at its place** (`writeText_ok`).

A tree only grows under writes (`Grows`), and what could be read by a path can be read by it in
every tree that has grown out of the first one.
-/

set_option autoImplicit false

namespace Understudy.Files

open DiskPath

/-! ## Entries -/

namespace FileTree

variable {t t' t'' : FileTree} {l : Location}

theorem lookup_eraseIf {p : Location → Bool} (hp : p l = false) :
    (t.eraseIf p).entries.lookup l = t.entries.lookup l := by
  have hentries : (t.eraseIf p).entries = t.entries.filter fun e => !p e.1 := rfl
  rw [hentries]
  induction t.entries with
  | nil => rfl
  | cons e es ih =>
    obtain ⟨m, e⟩ := e
    by_cases hm : p m = true
    · have hne : (l == m) = false := by
        rw [beq_eq_false_iff_ne]
        rintro rfl
        rw [hp] at hm
        exact absurd hm (by simp)
      rw [List.filter_cons_of_neg (by simp [hm]), ih, List.lookup_cons, hne]
    · rw [List.filter_cons_of_pos (by simp [hm]), List.lookup_cons, List.lookup_cons, ih]

@[simp] theorem get?_root : t.get? [] = some .directory := rfl

theorem get?_put_self (hl : l ≠ []) (e : Entry) : (t.put l e).get? l = some e := by
  have hempty : l.isEmpty = false := by simpa using hl
  rw [get?, hempty, if_neg (by simp), put]
  exact List.lookup_cons_self

theorem get?_put_of_ne {m : Location} (h : m ≠ l) (e : Entry) :
    (t.put l e).get? m = t.get? m := by
  have hne : (m == l) = false := by simpa using h
  rw [get?, get?, put]
  split
  · rfl
  · rw [List.lookup_cons, hne]
    exact lookup_eraseIf (by simpa using hne)

/-- The trees that real disks hold: names are plain, and what lies somewhere lies in a directory.
So no place is a file and a directory at once. -/
structure WellFormed (t : FileTree) : Prop where
  plain : ∀ l, t.get? l ≠ none → ∀ name ∈ l, IsPlain name
  closed : ∀ l name, t.get? (l ++ [name]) ≠ none → t.get? l = some .directory

theorem WellFormed.empty : FileTree.empty.WellFormed := by
  constructor
  · intro l h
    cases l with
    | nil => simp
    | cons name l => exact absurd rfl h
  · intro l name h
    cases l with
    | nil => rfl
    | cons name l => exact absurd rfl h

theorem WellFormed.parent (ht : t.WellFormed) (h : t.get? l ≠ none) :
    t.get? l.dropLast = some .directory := by
  rcases List.eq_nil_or_concat' l with rfl | ⟨m, name, rfl⟩
  · rfl
  · rw [List.dropLast_concat]
    exact ht.closed m name h

/-- All directories above an entry are there. -/
theorem WellFormed.above (ht : t.WellFormed) {m : Location} (hm : m ≠ [])
    (h : t.get? (l ++ m) ≠ none) : t.get? l = some .directory := by
  induction m using List.reverseRecOn with
  | nil => exact absurd rfl hm
  | append_singleton m name ih =>
    rw [← List.append_assoc] at h
    have hparent := ht.closed _ name h
    by_cases hnil : m = []
    · simpa [hnil] using hparent
    · exact ih hnil (by rw [hparent]; simp)

/-- `t'` holds all that `t` holds, with other bytes perhaps. -/
structure Grows (t t' : FileTree) : Prop where
  directory : ∀ l, t.get? l = some .directory → t'.get? l = some .directory
  file : ∀ l b, t.get? l = some (.file b) → ∃ b', t'.get? l = some (.file b')

theorem Grows.refl (t : FileTree) : Grows t t := ⟨fun _ h => h, fun _ b h => ⟨b, h⟩⟩

theorem Grows.trans (h : Grows t t') (h' : Grows t' t'') : Grows t t'' := by
  refine ⟨fun l hl => h'.directory l (h.directory l hl), fun l b hl => ?_⟩
  obtain ⟨b', hb'⟩ := h.file l b hl
  exact h'.file l b' hb'

end FileTree

/-! ## Where moves lead -/

/-- Where moves lead from a location. -/
def landing (l : Location) : List RawText → Location
  | [] => l
  | m :: ms => landing (if m = ".." then l.dropLast else l ++ [m]) ms

/-- The directories that moves enter by their names. -/
def passed (l : Location) : List RawText → List Location
  | [] => []
  | m :: ms => if m = ".." then passed l.dropLast ms else (l ++ [m]) :: passed (l ++ [m]) ms

theorem landing_append (l : Location) (ms ns : List RawText) :
    landing l (ms ++ ns) = landing (landing l ms) ns := by
  induction ms generalizing l with
  | nil => rfl
  | cons m ms ih => exact ih _

theorem passed_append (l : Location) (ms ns : List RawText) :
    passed l (ms ++ ns) = passed l ms ++ passed (landing l ms) ns := by
  induction ms generalizing l with
  | nil => rfl
  | cons m ms ih =>
    rw [List.cons_append, passed, passed, landing]
    split
    · exact ih _
    · rw [ih]
      rfl

/-- Names that are no steps to a parent are appended. -/
theorem landing_names {names : List RawText} (h : .ofText ".." ∉ names) (l : Location) :
    landing l names = l ++ names := by
  induction names generalizing l with
  | nil => simp [landing]
  | cons name names ih =>
    simp only [List.mem_cons, not_or] at h
    rw [landing, if_neg (Ne.symm h.1), ih h.2]
    simp

namespace FileTree

variable {t t' : FileTree} {limits : Option Limits} {l l' : Location} {ss : List RawText}

/-! ## Following segments -/

theorem follow_idle {s : RawText} (hl : t.get? l = some .directory) (hs : isIdleSegment s = true) :
    t.follow limits l (s :: ss) = t.follow limits l ss := by
  rw [follow, hl]
  exact if_pos hs

theorem follow_up (hl : t.get? l = some .directory) :
    t.follow limits l (".." :: ss) = t.follow limits l.dropLast ss := by
  rw [follow, hl]
  rfl

theorem follow_name {s : RawText} (hl : t.get? l = some .directory)
    (hs : isIdleSegment s = false) (hup : s ≠ "..") (hchild : t.get? (l ++ [s]) ≠ none) :
    t.follow limits l (s :: ss) = t.follow limits (l ++ [s]) ss := by
  have hne : (s == "..") = false := by simpa using hup
  obtain ⟨e, he⟩ := Option.ne_none_iff_exists'.1 hchild
  rw [follow, hl]
  simp only [hs, hne, Bool.false_eq_true, if_false, he]

/-- What it takes to follow one segment and then others. -/
theorem follow_cons_ok {s : RawText} (h : t.follow limits l (s :: ss) = .ok l') :
    t.get? l = some .directory ∧
      ((isIdleSegment s = true ∧ t.follow limits l ss = .ok l') ∨
        (s = ".." ∧ t.follow limits l.dropLast ss = .ok l') ∨
        (isIdleSegment s = false ∧ s ≠ ".." ∧ t.get? (l ++ [s]) ≠ none ∧
          t.follow limits (l ++ [s]) ss = .ok l')) := by
  rw [follow] at h
  split at h
  · next hl =>
    refine ⟨hl, ?_⟩
    split at h
    · next hs => exact Or.inl ⟨hs, h⟩
    · next hs =>
      split at h
      · next hup => exact Or.inr (Or.inl ⟨eq_of_beq hup, h⟩)
      · next hup =>
        split at h
        · next e he =>
          refine Or.inr (Or.inr ⟨by simpa using hs, by simpa using hup, ?_, h⟩)
          rw [he]
          simp
        · cases h
  · cases h

/-- **Where segments lead is said by their moves.** -/
theorem follow_landing (h : t.follow limits l ss = .ok l') : l' = landing l (movesOf ss) := by
  induction ss generalizing l with
  | nil =>
    rw [follow] at h
    exact (Except.ok.inj h).symm
  | cons s ss ih =>
    obtain ⟨-, ⟨hs, hrest⟩ | ⟨rfl, hrest⟩ | ⟨hs, hup, -, hrest⟩⟩ := follow_cons_ok h
    · rw [movesOf_idle hs]
      exact ih hrest
    · rw [movesOf_move (by decide), landing, if_pos rfl]
      exact ih hrest
    · rw [movesOf_move hs, landing, if_neg hup]
      exact ih hrest

/-- Segments can be followed if all directories on the way are there. -/
theorem follow_of_passed (limits : Option Limits) (ht : t.WellFormed)
    (hl : t.get? l = some .directory)
    (h : ∀ x ∈ passed l (movesOf ss), t.get? x = some .directory) :
    t.follow limits l ss = .ok (landing l (movesOf ss)) ∧
      t.get? (landing l (movesOf ss)) = some .directory := by
  induction ss generalizing l with
  | nil => exact ⟨rfl, hl⟩
  | cons s ss ih =>
    by_cases hs : isIdleSegment s = true
    · rw [movesOf_idle hs] at h ⊢
      rw [follow_idle hl hs]
      exact ih hl h
    · rw [Bool.not_eq_true] at hs
      rw [movesOf_move hs] at h ⊢
      rw [landing]
      by_cases hup : s = ".."
      · rw [passed, if_pos hup] at h
        rw [hup, follow_up hl, if_pos rfl]
        exact ih (ht.parent (by rw [hl]; simp)) h
      · rw [passed, if_neg hup] at h
        obtain ⟨hchild, hrest⟩ := List.forall_mem_cons.1 h
        rw [follow_name hl hs hup (by rw [hchild]; simp), if_neg hup]
        exact ih hchild hrest

theorem follow_append (h : t.follow limits l ss = .ok l') (us : List RawText) :
    t.follow limits l (ss ++ us) = t.follow limits l' us := by
  induction ss generalizing l with
  | nil =>
    rw [follow] at h
    rw [Except.ok.inj h]
    rfl
  | cons s ss ih =>
    rw [List.cons_append]
    obtain ⟨hl, ⟨hs, hrest⟩ | ⟨rfl, hrest⟩ | ⟨hs, hup, hchild, hrest⟩⟩ := follow_cons_ok h
    · rw [follow_idle hl hs]
      exact ih hrest
    · rw [follow_up hl]
      exact ih hrest
    · rw [follow_name hl hs hup hchild]
      exact ih hrest

/-- Segments are followed one part after the other. -/
theorem exists_follow_of_append {us : List RawText} (h : t.follow limits l (ss ++ us) = .ok l') :
    ∃ m, t.follow limits l ss = .ok m ∧ t.follow limits m us = .ok l' := by
  induction ss generalizing l with
  | nil => exact ⟨l, rfl, h⟩
  | cons s ss ih =>
    obtain ⟨hl, ⟨hs, hrest⟩ | ⟨rfl, hrest⟩ | ⟨hs, hup, hchild, hrest⟩⟩ := follow_cons_ok h
    · rw [follow_idle hl hs]
      exact ih hrest
    · rw [follow_up hl]
      exact ih hrest
    · rw [follow_name hl hs hup hchild]
      exact ih hrest

/-- On the way to a directory there are directories. -/
theorem passed_of_follow (h : t.follow limits l ss = .ok l') (hl' : t.get? l' = some .directory) :
    t.get? l = some .directory ∧
      ∀ x ∈ passed l (movesOf ss), t.get? x = some .directory := by
  induction ss generalizing l with
  | nil =>
    rw [follow] at h
    rw [Except.ok.inj h]
    exact ⟨hl', by simp [passed]⟩
  | cons s ss ih =>
    obtain ⟨hl, ⟨hs, hrest⟩ | ⟨rfl, hrest⟩ | ⟨hs, hup, -, hrest⟩⟩ := follow_cons_ok h
    · rw [movesOf_idle hs]
      exact ⟨hl, (ih hrest).2⟩
    · rw [movesOf_move (by decide), passed, if_pos rfl]
      exact ⟨hl, (ih hrest).2⟩
    · rw [movesOf_move hs, passed, if_neg hup]
      exact ⟨hl, List.forall_mem_cons.2 (ih hrest)⟩

/-! ## Making directories -/

theorem put_grows (hl : t.get? l = none) (e : Entry) : Grows t (t.put l e) := by
  have hne : ∀ x, t.get? x ≠ none → (t.put l e).get? x = t.get? x := by
    intro x hx
    refine get?_put_of_ne ?_ e
    rintro rfl
    exact hx hl
  refine ⟨fun x hx => ?_, fun x b hx => ⟨b, ?_⟩⟩
  · rw [hne x (by rw [hx]; simp), hx]
  · rw [hne x (by rw [hx]; simp), hx]

/-- An entry below a directory, under a plain name, keeps a tree well-formed. -/
theorem WellFormed.put (ht : t.WellFormed) {name : RawText} (hname : IsPlain name)
    (hl : t.get? l = some .directory) {e : Entry}
    (he : e = .directory ∨ t.get? (l ++ [name]) ≠ some .directory) :
    (t.put (l ++ [name]) e).WellFormed := by
  have hput : ∀ x, (t.put (l ++ [name]) e).get? x ≠ none →
      x = l ++ [name] ∨ t.get? x ≠ none := by
    intro x hx
    by_cases hxl : x = l ++ [name]
    · exact Or.inl hxl
    · rw [get?_put_of_ne hxl] at hx
      exact Or.inr hx
  -- Only one location is new, and the one above it is the directory `l`.
  constructor
  · intro x hx n hn
    rcases hput x hx with rfl | hx
    · rcases List.mem_append.1 hn with hn | hn
      · exact ht.plain l (by rw [hl]; simp) n hn
      · exact List.mem_singleton.1 hn ▸ hname
    · exact ht.plain x hx n hn
  · intro x n hx
    have hdir : t.get? x = some .directory := by
      rcases hput _ hx with heq | hx
      · rw [(List.append_inj' heq rfl).1]
        exact hl
      · exact ht.closed x n hx
    by_cases hxl : x = l ++ [name]
    · subst hxl
      rcases he with rfl | he
      · exact get?_put_self (by simp) _
      · exact absurd hdir he
    · rw [get?_put_of_ne hxl]
      exact hdir

/-- The tree with some directories made where there was nothing. -/
def WithDirectories (t t' : FileTree) (made : List Location) : Prop :=
  (∀ x ∈ made, ∀ b, t.get? x ≠ some (.file b)) ∧
    ∀ x, t'.get? x = (t.get? x).or (if x ∈ made then some .directory else none)

theorem WithDirectories.nil (t : FileTree) : WithDirectories t t [] :=
  ⟨by simp, fun x => by simp⟩

theorem WithDirectories.grows {made : List Location} (h : WithDirectories t t' made) :
    Grows t t' := by
  refine ⟨fun x hx => ?_, fun x b hx => ⟨b, ?_⟩⟩
  · rw [h.2, hx, Option.some_or]
  · rw [h.2, hx, Option.some_or]

theorem WithDirectories.made {made : List Location} (h : WithDirectories t t' made) {x : Location}
    (hx : x ∈ made) : t'.get? x = some .directory := by
  rw [h.2, if_pos hx]
  cases he : t.get? x with
  | none => rfl
  | some e =>
    cases e with
    | directory => rfl
    | file b => exact absurd he (h.1 x hx b)

/-- One directory that was there or is put there, and then others. -/
theorem WithDirectories.cons {t₁ : FileTree} {made : List Location}
    (h₁ : (t.get? l = some .directory ∧ t₁ = t) ∨
      (t.get? l = none ∧ l ≠ [] ∧ t₁ = t.put l .directory))
    (h : WithDirectories t₁ t' made) : WithDirectories t t' (l :: made) := by
  rcases h₁ with ⟨hl, rfl⟩ | ⟨hl, hne, rfl⟩
  · refine ⟨?_, fun x => ?_⟩
    · refine List.forall_mem_cons.2 ⟨?_, h.1⟩
      rw [hl]
      simp
    · rw [h.2]
      by_cases hx : x = l
      · simp [hx, hl]
      · simp [hx]
  · have hother : ∀ x, x ≠ l → (t.put l .directory).get? x = t.get? x :=
      fun x hx => get?_put_of_ne hx _
    refine ⟨?_, fun x => ?_⟩
    · refine List.forall_mem_cons.2 ⟨by simp [hl], fun x hx b => ?_⟩
      by_cases hxl : x = l
      · simp [hxl, hl]
      · rw [← hother x hxl]
        exact h.1 x hx b
    · rw [h.2]
      by_cases hx : x = l
      · subst hx
        rw [get?_put_self hne, hl]
        simp
      · rw [hother x hx]
        simp [hx]

/-- What one segment does when directories are made. -/
theorem makeDirectories_cons_ok {s : RawText} {r : FileTree × Location}
    (h : t.makeDirectories limits l (s :: ss) = .ok r) :
    (isIdleSegment s = true ∧ t.makeDirectories limits l ss = .ok r) ∨
      (s = ".." ∧ t.makeDirectories limits l.dropLast ss = .ok r) ∨
      (isIdleSegment s = false ∧ s ≠ ".." ∧ ∃ t₁, ((t.get? (l ++ [s]) = some .directory ∧ t₁ = t) ∨
          (t.get? (l ++ [s]) = none ∧ t₁ = t.put (l ++ [s]) .directory)) ∧
        t₁.makeDirectories limits (l ++ [s]) ss = .ok r) := by
  rw [makeDirectories] at h
  split at h
  · next hs => exact Or.inl ⟨hs, h⟩
  · next hs =>
    split at h
    · next hup => exact Or.inr (Or.inl ⟨eq_of_beq hup, h⟩)
    · next hup =>
      refine Or.inr (Or.inr ⟨by simpa using hs, by simpa using hup, ?_⟩)
      dsimp only at h
      split at h
      · next hl => exact ⟨t, Or.inl ⟨hl, rfl⟩, h⟩
      · cases h
      · next hl =>
        split at h
        · cases h
        · exact ⟨_, Or.inr ⟨hl, rfl⟩, h⟩

/-- **Making directories makes those that the moves enter**, and nothing else changes. -/
theorem makeDirectories_spec {r : FileTree × Location}
    (h : t.makeDirectories limits l ss = .ok r) :
    WithDirectories t r.1 (passed l (movesOf ss)) := by
  induction ss generalizing l t with
  | nil =>
    rw [makeDirectories] at h
    rw [← Except.ok.inj h]
    exact WithDirectories.nil t
  | cons s ss ih =>
    rcases makeDirectories_cons_ok h with ⟨hs, hrest⟩ | ⟨rfl, hrest⟩ | ⟨hs, hup, t₁, ht₁, hrest⟩
    · rw [movesOf_idle hs]
      exact ih hrest
    · rw [movesOf_move (by decide), passed, if_pos rfl]
      exact ih hrest
    · rw [movesOf_move hs, passed, if_neg hup]
      refine WithDirectories.cons ?_ (ih hrest)
      rcases ht₁ with ht₁ | ⟨hl, rfl⟩
      · exact Or.inl ht₁
      · exact Or.inr ⟨hl, by simp, rfl⟩

/-- Directories can be made unless a file is in the way. -/
theorem makeDirectories_ok
    (h : ∀ x ∈ passed l (movesOf ss), ∀ b, t.get? x ≠ some (.file b)) :
    ∃ r, t.makeDirectories none l ss = .ok r := by
  induction ss generalizing l t with
  | nil => exact ⟨_, rfl⟩
  | cons s ss ih =>
    rw [makeDirectories]
    by_cases hs : isIdleSegment s = true
    · rw [movesOf_idle hs] at h
      rw [if_pos hs]
      exact ih h
    rw [if_neg hs]
    rw [Bool.not_eq_true] at hs
    rw [movesOf_move hs] at h
    -- A step up passes nothing; a name passes the location that it leads to.
    by_cases hup : s = ".."
    · rw [passed, if_pos hup] at h
      rw [if_pos (by simpa using hup)]
      exact ih h
    rw [passed, if_neg hup] at h
    rw [if_neg (by simpa using hup)]
    obtain ⟨hchild, hrest⟩ := List.forall_mem_cons.1 h
    dsimp only
    cases he : t.get? (l ++ [s]) with
    | none =>
      refine ih (t := t.put (l ++ [s]) .directory) fun x hx b => ?_
      by_cases hxl : x = l ++ [s]
      · rw [hxl, get?_put_self (by simp)]
        simp
      · rw [get?_put_of_ne hxl]
        exact hrest x hx b
    | some e =>
      cases e with
      | directory => exact ih hrest
      | file b => exact absurd he (hchild b)

/-- The entered directories keep a tree well-formed. -/
theorem makeDirectories_wellFormed {r : FileTree × Location} (ht : t.WellFormed)
    (hl : t.get? l = some .directory) (hss : ∀ s ∈ ss, RawText.slash ∉ s.bytes)
    (h : t.makeDirectories limits l ss = .ok r) : r.1.WellFormed := by
  induction ss generalizing l t with
  | nil =>
    rw [makeDirectories] at h
    rw [← Except.ok.inj h]
    exact ht
  | cons s ss ih =>
    obtain ⟨hslash, hslashes⟩ := List.forall_mem_cons.1 hss
    rcases makeDirectories_cons_ok h with ⟨-, hrest⟩ | ⟨rfl, hrest⟩ | ⟨hs, hup, t₁, ht₁, hrest⟩
    · exact ih ht hl hslashes hrest
    · exact ih ht (ht.parent (by rw [hl]; simp)) hslashes hrest
    · rcases ht₁ with ⟨hchild, rfl⟩ | ⟨hchild, rfl⟩
      · exact ih ht hchild hslashes hrest
      · exact ih (ht.put ⟨hs, hup, hslash⟩ hl (Or.inl rfl)) (get?_put_self (by simp) _) hslashes
          hrest

end FileTree

/-! ## Paths of a disk -/

namespace Disk

variable {d d' : Disk} {p q : DiskPath} {name : RawText}

/-- A disk as real ones are: the tree is well-formed and the working directory is there. Names and
paths can be refused for their length. -/
structure Proper (d : Disk) : Prop where
  tree : d.tree.WellFormed
  absolute : d.cwd.isAbsolute = true
  cwd : ∀ x ∈ passed [] d.cwd.moves, d.tree.get? x = some .directory

/-- A disk on which nothing fails but what its tree makes fail: there are no limits, the tree is
well-formed and the working directory is there. -/
structure Sound (d : Disk) : Prop where
  unlimited : d.limits = none
  tree : d.tree.WellFormed
  absolute : d.cwd.isAbsolute = true
  cwd : ∀ x ∈ passed [] d.cwd.moves, d.tree.get? x = some .directory

theorem Sound.proper (hd : d.Sound) : d.Proper := ⟨hd.tree, hd.absolute, hd.cwd⟩

/-- Where a path leads, whether anything is there or not. -/
def place (d : Disk) (p : DiskPath) : Location := landing [] (d.cwd.join p).moves

/-- The directories that a path enters by their names. -/
def onTheWay (d : Disk) (p : DiskPath) : List Location := passed [] (d.cwd.join p).moves

/-- Whether a path leads through directories to a directory. -/
def Reaches (d : Disk) (p : DiskPath) : Prop :=
  ∀ x ∈ d.onTheWay p, d.tree.get? x = some .directory

theorem Proper.cwd_ne_empty (hd : d.Proper) : d.cwd.raw ≠ "" := by
  intro he
  have habs := hd.absolute
  rw [isAbsolute, he] at habs
  exact absurd habs (by decide)

/-- Paths with the same moves from the same beginning lead to the same place. -/
theorem moves_join_congr (base : DiskPath) (hmoves : q.moves = p.moves)
    (habs : q.isAbsolute = p.isAbsolute) : (base.join q).moves = (base.join p).moves := by
  cases hp : p.isAbsolute with
  | true =>
    rw [hp] at habs
    rw [join_absolute habs, join_absolute hp, hmoves]
  | false =>
    rw [hp] at habs
    rw [moves_join habs, moves_join hp, hmoves]

theorem moves_join_join {base : DiskPath} (hbase : base.raw ≠ "") (p : DiskPath)
    (hname : IsPlain name) :
    (base.join (p.join ⟨name⟩)).moves = (base.join p).moves ++ [name] := by
  obtain ⟨ss, hss, hmoves⟩ := segments_join_join hbase p hname
  rw [moves, hss, movesOf_append, hmoves, movesOf_move hname.1, movesOf_nil]

theorem place_join_name (hd : d.Proper) (p : DiskPath) (hname : IsPlain name) :
    d.place (p.join ⟨name⟩) = d.place p ++ [name] := by
  rw [place, moves_join_join hd.cwd_ne_empty p hname, landing_append, landing, if_neg hname.2.1]
  rfl

theorem onTheWay_join_name (hd : d.Proper) (p : DiskPath) (hname : IsPlain name) :
    d.onTheWay (p.join ⟨name⟩) = d.onTheWay p ++ [d.place p ++ [name]] := by
  rw [onTheWay, moves_join_join hd.cwd_ne_empty p hname, passed_append, passed,
    if_neg hname.2.1]
  rfl

theorem refusal?_none (hd : d.Sound) (p : DiskPath) : Limits.refusal? d.limits p = none := by
  rw [hd.unlimited]
  rfl

/-! ## Reading -/

theorem locate_eq (hd : d.Sound) (hp : p.raw ≠ "") :
    d.locate p = d.tree.follow none [] (d.cwd.join p).segments := by
  have hempty : p.raw.isEmpty = false := by simpa using hp
  rw [locate, hempty, if_neg (by simp), refusal?_none hd, hd.unlimited]

/-- A path that leads somewhere leads to its place. -/
theorem locate_ok {l : Location} (h : d.locate p = .ok l) :
    d.tree.follow d.limits [] (d.cwd.join p).segments = .ok l ∧ d.place p = l := by
  rw [locate] at h
  split at h
  · cases h
  · split at h
    · cases h
    · exact ⟨h, (FileTree.follow_landing h).symm⟩

theorem entry_eq (d : Disk) (p : DiskPath) :
    d.entry p = (d.locate p >>= fun l =>
      match d.tree.get? l with
      | some e => .ok e
      | none => .error .notFound) := rfl

/-- A path that leads to a directory is followed through directories. -/
theorem reaches_of_isDirectory (h : d.isDirectory p = true) :
    d.locate p = .ok (d.place p) ∧ d.Reaches p := by
  rw [isDirectory, entry_eq] at h
  cases hl : d.locate p with
  | error fault =>
    rw [hl] at h
    exact absurd h (by simp [bind, Except.bind])
  | ok l =>
    obtain ⟨hfollow, rfl⟩ := locate_ok hl
    rw [hl] at h
    simp only [bind, Except.bind] at h
    cases hentry : d.tree.get? (d.place p) with
    | none => simp [hentry] at h
    | some e =>
      cases e with
      | directory => exact ⟨rfl, (FileTree.passed_of_follow hfollow hentry).2⟩
      | file b => simp [hentry] at h

/-- **What a path reaches is a directory at its place.** -/
theorem isDirectory_iff (hd : d.Sound) (hp : p.raw ≠ "") :
    d.isDirectory p = true ↔ d.Reaches p := by
  constructor
  · intro h
    exact (reaches_of_isDirectory h).2
  · intro h
    obtain ⟨hf, hl⟩ := FileTree.follow_of_passed none hd.tree FileTree.get?_root h
    rw [isDirectory, entry_eq, locate_eq hd hp, hf]
    simp [bind, Except.bind, hl]

theorem directory_of_reaches (hd : d.Proper) (h : d.Reaches p) :
    d.tree.get? (d.place p) = some .directory :=
  (FileTree.follow_of_passed none hd.tree FileTree.get?_root h).2

theorem locate_of_reaches (hd : d.Sound) (hp : p.raw ≠ "") (h : d.Reaches p) :
    d.locate p = .ok (d.place p) ∧ d.tree.get? (d.place p) = some .directory := by
  obtain ⟨hf, hl⟩ := FileTree.follow_of_passed none hd.tree FileTree.get?_root h
  exact ⟨by rw [locate_eq hd hp, hf]; rfl, hl⟩

theorem join_name_ne_empty (p : DiskPath) (hname : IsPlain name) : (p.join ⟨name⟩).raw ≠ "" := by
  intro he
  have hempty : p.join ⟨name⟩ = ⟨""⟩ := congrArg DiskPath.mk he
  have hmoves := moves_join (p := p) hname.relative
  rw [hempty, moves_plain hname, moves_empty] at hmoves
  exact absurd hmoves (by simp)

/-- What can be read by a name lies in a directory that is reached. -/
theorem entry_join_name_ok (hd : d.Proper) (hname : IsPlain name) {e : Entry}
    (h : d.entry (p.join ⟨name⟩) = .ok e) :
    d.Reaches p ∧ d.tree.get? (d.place p ++ [name]) = some e := by
  obtain ⟨ss, hss, hmoves⟩ := segments_join_join hd.cwd_ne_empty p hname
  rw [entry_eq] at h
  cases hl : d.locate (p.join ⟨name⟩) with
  | error fault =>
    rw [hl] at h
    cases h
  | ok l =>
    obtain ⟨hfollow, rfl⟩ := locate_ok hl
    rw [hss] at hfollow
    obtain ⟨m, hm, hlast⟩ := FileTree.exists_follow_of_append hfollow
    have hpassed := FileTree.passed_of_follow hm (FileTree.follow_cons_ok hlast).1
    rw [hmoves] at hpassed
    simp only [hl, bind, Except.bind, place_join_name hd p hname] at h
    cases hchild : d.tree.get? (d.place p ++ [name]) with
    | none =>
      rw [hchild] at h
      cases h
    | some e' =>
      rw [hchild] at h
      cases h
      exact ⟨hpassed.2, rfl⟩

/-- The way to a name in a directory that is reached leads to the directory and ends with the name. -/
theorem Proper.follow_join_name (hd : d.Proper) (h : d.Reaches p) (hname : IsPlain name) :
    ∃ ss, (d.cwd.join (p.join ⟨name⟩)).segments = ss ++ [name] ∧
      d.tree.follow d.limits [] ss = .ok (d.place p) ∧
      d.tree.get? (d.place p) = some .directory := by
  obtain ⟨ss, hss, hmoves⟩ := segments_join_join hd.cwd_ne_empty p hname
  have hway : ∀ x ∈ passed [] (movesOf ss), d.tree.get? x = some .directory := by
    rw [hmoves]
    exact h
  have hplace : landing [] (movesOf ss) = d.place p := by rw [hmoves]; rfl
  rw [← hplace]
  exact ⟨ss, hss, FileTree.follow_of_passed d.limits hd.tree FileTree.get?_root hway⟩

/-- **What a name in a directory leads to** is what the tree holds there, unless the path is
refused. -/
theorem entry_join_name_of_accepted (hd : d.Proper)
    (haccepted : Limits.refusal? d.limits (p.join ⟨name⟩) = none) (h : d.Reaches p)
    (hname : IsPlain name) :
    d.entry (p.join ⟨name⟩) =
      match d.tree.get? (d.place p ++ [name]) with
      | some e => .ok e
      | none => .error (if Limits.forbid d.limits name then .nameTooLong else .notFound) := by
  obtain ⟨ss, hss, hf, hl⟩ := hd.follow_join_name h hname
  have hempty : (p.join ⟨name⟩).raw.isEmpty = false := by
    simpa using join_name_ne_empty p hname
  have hlocate : d.locate (p.join ⟨name⟩) = d.tree.follow d.limits (d.place p) [name] := by
    rw [locate, hempty, if_neg (by simp), haccepted, hss]
    exact FileTree.follow_append hf [name]
  cases hchild : d.tree.get? (d.place p ++ [name]) with
  | none =>
    have hne : (name == "..") = false := by simpa using hname.2.1
    rw [entry, hlocate, FileTree.follow, hl]
    simp [hname.1, hne, hchild, bind, Except.bind]
  | some e =>
    rw [entry, hlocate, FileTree.follow_name hl hname.1 hname.2.1 (by rw [hchild]; simp)]
    simp [FileTree.follow, bind, Except.bind, hchild, pure, Except.pure]

theorem entry_join_name (hd : d.Sound) (h : d.Reaches p) (hname : IsPlain name) :
    d.entry (p.join ⟨name⟩) =
      match d.tree.get? (d.place p ++ [name]) with
      | some e => .ok e
      | none => .error .notFound := by
  rw [entry_join_name_of_accepted hd.proper (refusal?_none hd _) h hname, hd.unlimited]
  cases d.tree.get? (d.place p ++ [name]) with
  | none => rfl
  | some e => rfl

/-- A file that is found by a name lies in a directory that is reached. -/
theorem isFile_join_name_ok (hd : d.Proper) (hname : IsPlain name)
    (h : d.isFile (p.join ⟨name⟩) = true) :
    d.Reaches p ∧ ∃ b, d.tree.get? (d.place p ++ [name]) = some (.file b) := by
  rw [isFile] at h
  split at h
  · next b hentry =>
    obtain ⟨hreach, hfile⟩ := entry_join_name_ok hd hname hentry
    exact ⟨hreach, b, hfile⟩
  · cases h

theorem isFile_join_name (hd : d.Sound) (h : d.Reaches p) (hname : IsPlain name) :
    d.isFile (p.join ⟨name⟩) = true ↔ ∃ b, d.tree.get? (d.place p ++ [name]) = some (.file b) := by
  rw [isFile, entry_join_name hd h hname]
  cases hchild : d.tree.get? (d.place p ++ [name]) with
  | none => simp
  | some e => cases e <;> simp

/-- The text of a file is read from its bytes. -/
theorem readText_join_name (hd : d.Proper)
    (haccepted : Limits.refusal? d.limits (p.join ⟨name⟩) = none) (h : d.Reaches p)
    (hname : IsPlain name) {bytes : ByteArray}
    (hchild : d.tree.get? (d.place p ++ [name]) = some (.file bytes)) :
    d.readText (p.join ⟨name⟩) = match String.fromUTF8? bytes with
      | some text => .ok text
      | none => .error .notText := by
  rw [readText, entry_join_name_of_accepted hd haccepted h hname, hchild]
  rfl

theorem readDirectory_of_reaches (hd : d.Sound) (hp : p.raw ≠ "") (h : d.Reaches p) :
    d.readDirectory p = .ok (d.tree.children (d.place p)) := by
  obtain ⟨hlocate, hl⟩ := locate_of_reaches hd hp h
  rw [readDirectory, entry, hlocate]
  simp [bind, Except.bind, hl, pure, Except.pure]

/-- The entries of a directory that can be read are those at its place. -/
theorem readDirectory_ok {entries : List (RawText × Entry)} (h : d.readDirectory p = .ok entries) :
    d.locate p = .ok (d.place p) ∧ d.tree.get? (d.place p) = some .directory ∧
      entries = d.tree.children (d.place p) := by
  cases hl : d.locate p with
  | error fault =>
    rw [readDirectory, entry_eq, hl] at h
    cases h
  | ok l =>
    obtain ⟨-, rfl⟩ := locate_ok hl
    cases hentry : d.tree.get? (d.place p) with
    | none => simp [readDirectory, entry_eq, hl, hentry, bind, Except.bind] at h
    | some e =>
      cases e with
      | directory =>
        refine ⟨rfl, rfl, ?_⟩
        simpa [readDirectory, entry_eq, hl, hentry, bind, Except.bind, pure, Except.pure, eq_comm]
          using h
      | file b =>
        simp [readDirectory, entry_eq, hl, hentry, bind, Except.bind, throw, throwThe,
          MonadExceptOf.throw] at h

/-! ## Writing -/

/-- The disk with another tree. -/
def withTree (d : Disk) (t : FileTree) : Disk := { d with tree := t }

@[simp] theorem withTree_tree (t : FileTree) : (d.withTree t).tree = t := rfl

@[simp] theorem withTree_limits (t : FileTree) : (d.withTree t).limits = d.limits := rfl

@[simp] theorem withTree_place (t : FileTree) (p : DiskPath) :
    (d.withTree t).place p = d.place p := rfl

@[simp] theorem withTree_onTheWay (t : FileTree) (p : DiskPath) :
    (d.withTree t).onTheWay p = d.onTheWay p := rfl

theorem Proper.withTree (hd : d.Proper) {t : FileTree} (ht : t.WellFormed)
    (hgrows : FileTree.Grows d.tree t) : (d.withTree t).Proper where
  tree := ht
  absolute := hd.absolute
  cwd x hx := hgrows.directory x (hd.cwd x hx)

/-- A disk stays sound as long as its tree grows and is well-formed. -/
theorem Sound.withTree (hd : d.Sound) {t : FileTree} (ht : t.WellFormed)
    (hgrows : FileTree.Grows d.tree t) : (d.withTree t).Sound where
  unlimited := hd.unlimited
  tree := ht
  absolute := hd.absolute
  cwd x hx := hgrows.directory x (hd.cwd x hx)

/-- What a path reaches it reaches in a tree that has grown. -/
theorem Reaches.grows (h : d.Reaches p) {t : FileTree} (hgrows : FileTree.Grows d.tree t) :
    (d.withTree t).Reaches p :=
  fun x hx => hgrows.directory x (h x hx)

/-- **Making a directory** makes what is missing on the way to it. -/
theorem makeDirectory_spec (hd : d.Proper) (hmoves : q.moves = p.moves)
    (habs : q.isAbsolute = p.isAbsolute) (h : d.makeDirectory q = .ok d') :
    ∃ t, d' = d.withTree t ∧ FileTree.WithDirectories d.tree t (d.onTheWay p) ∧ t.WellFormed := by
  rw [makeDirectory] at h
  split at h
  · next hempty =>
    -- The empty path is the working directory, which is there.
    have hq : q = ⟨""⟩ := congrArg DiskPath.mk (by simpa using hempty)
    have hway : d.onTheWay p = passed [] d.cwd.moves := by
      rw [onTheWay, ← moves_join_congr d.cwd hmoves habs, hq, moves_join rfl, moves_empty,
        List.append_nil]
    refine ⟨d.tree, (Except.ok.inj h).symm, ⟨?_, fun x => ?_⟩, hd.tree⟩
    · intro x hx b
      rw [hd.cwd x (hway ▸ hx)]
      simp
    · split
      · next hx => rw [hd.cwd x (hway ▸ hx), Option.some_or]
      · rw [Option.or_none]
  · have hway : passed [] (movesOf (d.cwd.join q).segments) = d.onTheWay p := by
      rw [onTheWay, ← moves_join_congr d.cwd hmoves habs]
      rfl
    split at h
    · cases h
    · cases hr : d.tree.makeDirectories d.limits [] (d.cwd.join q).segments with
      | error fault =>
        rw [hr] at h
        cases h
      | ok r =>
        rw [hr] at h
        cases h
        refine ⟨r.1, rfl, hway ▸ FileTree.makeDirectories_spec hr, ?_⟩
        exact FileTree.makeDirectories_wellFormed hd.tree FileTree.get?_root
          (fun _ hs => no_slash_of_mem hs) hr

/-- A directory can be made unless a file is in the way. -/
theorem makeDirectory_ok (hd : d.Sound) (hmoves : q.moves = p.moves)
    (habs : q.isAbsolute = p.isAbsolute)
    (h : ∀ x ∈ d.onTheWay p, ∀ b, d.tree.get? x ≠ some (.file b)) :
    ∃ d', d.makeDirectory q = .ok d' := by
  rw [makeDirectory]
  split
  · exact ⟨d, rfl⟩
  · rw [refusal?_none hd, hd.unlimited]
    obtain ⟨r, hr⟩ := FileTree.makeDirectories_ok (l := [])
      (t := d.tree) (by
        intro x hx
        refine h x ?_
        rw [onTheWay, ← moves_join_congr d.cwd hmoves habs]
        exact hx)
    rw [hr]
    exact ⟨_, rfl⟩

/-- **Storing a file** in a directory that is reached puts it at its place, unless a directory is
there or the name is refused. -/
theorem storeBytes_join_name (hd : d.Proper) (h : d.Reaches p) (hname : IsPlain name)
    (bytes : ByteArray) :
    d.storeBytes (p.join ⟨name⟩) bytes =
      match Limits.refusal? d.limits (p.join ⟨name⟩) with
      | some fault => .error fault
      | none =>
        if Limits.forbid d.limits name then .error .nameTooLong
        else
          match d.tree.get? (d.place p ++ [name]) with
          | some .directory => .error .isADirectory
          | _ => .ok (d.withTree (d.tree.put (d.place p ++ [name]) (.file bytes))) := by
  obtain ⟨ss, hss, hf, hl⟩ := hd.follow_join_name h hname
  -- The walk ends in the directory that `p` leads to, with the name left to be stored under.
  have hup : (name == "..") = false := by simpa using hname.2.1
  rw [storeBytes, hss, List.reverse_append, List.reverse_singleton, List.singleton_append]
  cases Limits.refusal? d.limits (p.join ⟨name⟩) with
  | some fault => rfl
  | none =>
    simp only [bind, Except.bind, pure, Except.pure, List.reverse_reverse, hf, hl, hname.1, hup,
      Bool.or_self, Bool.false_eq_true, if_false]
    cases Limits.forbid d.limits name with
    | true =>
      rw [if_pos rfl, if_pos rfl]
      rfl
    | false =>
      cases d.tree.get? (d.place p ++ [name]) with
      | none => rfl
      | some e => cases e <;> rfl

theorem storeBytes_ok_iff (hd : d.Proper) (h : d.Reaches p) (hname : IsPlain name)
    (bytes : ByteArray) : d.storeBytes (p.join ⟨name⟩) bytes = .ok d' ↔
      Limits.refusal? d.limits (p.join ⟨name⟩) = none ∧ Limits.forbid d.limits name = false ∧
        d.tree.get? (d.place p ++ [name]) ≠ some .directory ∧
          d' = d.withTree (d.tree.put (d.place p ++ [name]) (.file bytes)) := by
  rw [storeBytes_join_name hd h hname]
  cases Limits.refusal? d.limits (p.join ⟨name⟩) with
  | some fault => simp
  | none =>
    cases Limits.forbid d.limits name with
    | true => simp
    | false =>
      dsimp only
      rw [if_neg Bool.false_ne_true]
      split
      · next hdir => simp [hdir]
      · next hfree =>
        rw [Except.ok.injEq]
        exact ⟨fun he => ⟨rfl, rfl, hfree, he.symm⟩, fun he => he.2.2.2.symm⟩

/-- The tree after a file is written: what is missing on the way is made, then the file lies at
its place. -/
def WritesFile (d : Disk) (p : DiskPath) (name : RawText) (text : String) (t : FileTree) : Prop :=
  ∃ made, FileTree.WithDirectories d.tree made (d.onTheWay p) ∧
    made.get? (d.place p ++ [name]) ≠ some .directory ∧
    t = made.put (d.place p ++ [name]) (.file text.toUTF8)

theorem makes_reaches {made : FileTree}
    (h : FileTree.WithDirectories d.tree made (d.onTheWay p)) : (d.withTree made).Reaches p :=
  fun _ hx => h.made hx

theorem writeText_eq {text : String} (hq : (p.join ⟨name⟩).parent? = some q) :
    d.writeText (p.join ⟨name⟩) text =
      d.makeDirectory q >>= fun d => d.storeBytes (p.join ⟨name⟩) text.toUTF8 := by
  rw [writeText, hq]

/-- **Writing a file** makes the directories on the way to it and puts it at its place. -/
theorem writeText_spec (hd : d.Proper) (hname : IsPlain name) {text : String}
    (h : d.writeText (p.join ⟨name⟩) text = .ok d') :
    ∃ t, d' = d.withTree t ∧ d.WritesFile p name text t ∧ t.WellFormed ∧
      Limits.refusal? d.limits (p.join ⟨name⟩) = none := by
  obtain ⟨q, hq, hmoves, habs⟩ := parent?_join_name p hname
  rw [writeText_eq hq] at h
  cases hmake : d.makeDirectory q with
  | error fault =>
    rw [hmake] at h
    cases h
  | ok d₁ =>
    obtain ⟨made, rfl, hmade, hwf⟩ := makeDirectory_spec hd hmoves habs hmake
    have hproper := hd.withTree hwf hmade.grows
    have hreach := makes_reaches hmade
    have hplace := directory_of_reaches hproper hreach
    simp only [hmake, bind, Except.bind] at h
    obtain ⟨haccepted, -, hfree, rfl⟩ := (storeBytes_ok_iff hproper hreach hname _).1 h
    refine ⟨_, rfl, ⟨made, hmade, hfree, rfl⟩, ?_, haccepted⟩
    exact hwf.put hname hplace (Or.inr hfree)

/-- **A file can be written** unless a file lies on the way to it or a directory at its place. -/
theorem writeText_ok (hd : d.Sound) (hname : IsPlain name) (text : String)
    (hway : ∀ x ∈ d.onTheWay p, ∀ b, d.tree.get? x ≠ some (.file b))
    (hself : d.place p ++ [name] ∉ d.onTheWay p)
    (hfree : d.tree.get? (d.place p ++ [name]) ≠ some .directory) :
    ∃ d', d.writeText (p.join ⟨name⟩) text = .ok d' := by
  obtain ⟨q, hq, hmoves, habs⟩ := parent?_join_name p hname
  obtain ⟨d₁, hmake⟩ := makeDirectory_ok hd hmoves habs hway
  obtain ⟨made, rfl, hmade, hwf⟩ := makeDirectory_spec hd.proper hmoves habs hmake
  have hsound := hd.withTree hwf hmade.grows
  have hfree' : made.get? (d.place p ++ [name]) ≠ some .directory := by
    rw [hmade.2, if_neg hself, Option.or_none]
    exact hfree
  have hforbid : Limits.forbid d.limits name = false := by
    rw [hd.unlimited]
    rfl
  simp only [writeText_eq hq, hmake, bind, Except.bind]
  exact ⟨_, (storeBytes_ok_iff hsound.proper (makes_reaches hmade) hname _).2
    ⟨refusal?_none hsound _, hforbid, hfree', rfl⟩⟩

end Disk

end Understudy.Files

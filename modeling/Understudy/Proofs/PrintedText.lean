import Understudy.Proofs.FileReading
import Understudy.Source.Printer

/-!
# The lexemes of printed declarations

A printed file is written down as lexemes, in the form that `parse_fileLexemes` reads. Two things
set it apart from other text: structs and interfaces in declarations have a line for each entry,
and the entries of a declaration in parentheses are moved to the right as text, line by line.

> **An entry moved to the right is the entry with a tab before each of its lines**
> (`indentLines_printed`).

So the lexemes of a type take the blanks that stand before its lines, `tabs`, as a parameter.
-/

set_option autoImplicit false

namespace Understudy.Source

open Understudy.Source.Parser Text

/-! ## Lines -/

/-- Whether a text has no line end in it and none that it would share with the one after it. -/
structure OneLine (cs : List Char) : Prop where
  newline : '\n' ∉ cs
  last : cs.getLast? ≠ some '\r'

section Lines

variable {a b cs : List Char}

theorem oneLine_nil : OneLine [] := ⟨by simp, by simp⟩

theorem OneLine.append (ha : OneLine a) (hb : OneLine b) : OneLine (a ++ b) where
  newline h := (List.mem_append.1 h).elim ha.newline hb.newline
  last := by
    rw [List.getLast?_append]
    cases hl : b.getLast? with
    | none => exact ha.last
    | some c =>
      rw [← hl]
      simpa [hl] using hb.last

theorem oneLine_singleton {c : Char} (h : c ∉ ['\n', '\r']) : OneLine [c] := by
  simp only [List.mem_cons, List.not_mem_nil, or_false, not_or] at h
  exact ⟨by simpa using Ne.symm h.1, by simpa using h.2⟩

theorem OneLine.cons {c : Char} (hc : c ∉ ['\n', '\r']) (h : OneLine cs) : OneLine (c :: cs) :=
  (oneLine_singleton hc).append h

theorem OneLine.tail {c : Char} (h : OneLine (c :: cs)) : OneLine cs where
  newline hm := h.newline (List.mem_cons_of_mem _ hm)
  last := by
    cases cs with
    | nil => simp
    | cons d cs => simpa using h.last

theorem lines_cons {c : Char} (hn : c ≠ '\n') (hr : c = '\r' → cs.head? ≠ some '\n') :
    lines (c :: cs) =
      match lines cs with
      | [] => [[c]]
      | l :: ls => (c :: l) :: ls := by
  refine lines.eq_4 c cs hn fun ds hc hds => ?_
  exact hr hc (by simp [hds])

/-- The first character of a line, whatever stands behind the line. -/
theorem OneLine.lines_cons {c : Char} (h : OneLine (c :: cs)) (rest : List Char) :
    lines (c :: (cs ++ rest)) =
      match lines (cs ++ rest) with
      | [] => [[c]]
      | l :: ls => (c :: l) :: ls := by
  refine Source.lines_cons (fun hc => h.newline (by simp [hc])) fun hc hd => ?_
  cases cs with
  | nil => exact h.last (by simp [hc])
  | cons d cs => exact h.newline (by simp_all)

theorem OneLine.lines_append (h : OneLine cs) (rest : List Char) :
    lines (cs ++ '\n' :: rest) = cs :: lines rest := by
  induction cs with
  | nil => rfl
  | cons c cs ih =>
    rw [List.cons_append, h.lines_cons, ih h.tail]

theorem OneLine.lines_eq (h : OneLine cs) (hne : cs ≠ []) : lines cs = [cs] := by
  induction cs with
  | nil => exact absurd rfl hne
  | cons c cs ih =>
    have hl := h.lines_cons []
    rw [List.append_nil] at hl
    rw [hl]
    cases cs with
    | nil => rfl
    | cons d cs => rw [ih h.tail (by simp)]

/-- The end of a line may take a carriage return along. -/
theorem lines_line {l : List Char} (hl : '\n' ∉ l) (rest : List Char) :
    ∃ m, lines (l ++ '\n' :: rest) = m :: lines rest ∧ (l = m ∨ l = m ++ ['\r']) := by
  induction l with
  | nil => exact ⟨[], by rw [List.nil_append, lines], Or.inl rfl⟩
  | cons c l ih =>
    rw [List.mem_cons, not_or] at hl
    by_cases hr : c = '\r' ∧ l = []
    · obtain ⟨rfl, rfl⟩ := hr
      exact ⟨[], by rw [List.cons_append, List.nil_append, lines], Or.inr rfl⟩
    · obtain ⟨m, hm, h⟩ := ih hl.2
      have hnext : c = '\r' → (l ++ '\n' :: rest).head? ≠ some '\n' := by
        intro hc
        cases l with
        | nil => exact absurd ⟨hc, rfl⟩ hr
        | cons d l =>
          intro hd
          exact hl.2 (by simp [Option.some.inj hd])
      refine ⟨c :: m, ?_, ?_⟩
      · rw [List.cons_append, lines_cons (Ne.symm hl.1) hnext, hm]
      · rcases h with rfl | rfl
        · exact Or.inl rfl
        · exact Or.inr rfl

theorem lines_unended {l : List Char} (hl : '\n' ∉ l) (hne : l ≠ []) : lines l = [l] := by
  induction l with
  | nil => exact absurd rfl hne
  | cons c l ih =>
    rw [List.mem_cons, not_or] at hl
    have hnext : c = '\r' → l.head? ≠ some '\n' := by
      rintro - hd
      exact hl.2 (List.mem_of_head? hd)
    rw [lines_cons (Ne.symm hl.1) hnext]
    cases l with
    | nil => rfl
    | cons d l => rw [ih hl.2 (List.cons_ne_nil d l)]

/-- Some lines, each with its end. -/
def joinLines (ls : List (List Char)) : List Char := ls.flatMap (· ++ ['\n'])

theorem lines_joinLines {ls : List (List Char)} (h : ∀ l ∈ ls, OneLine l) (rest : List Char) :
    lines (joinLines ls ++ rest) = ls ++ lines rest := by
  induction ls with
  | nil => rfl
  | cons l ls ih =>
    obtain ⟨hl, h⟩ := List.forall_mem_cons.1 h
    have hjoin : joinLines (l :: ls) ++ rest = l ++ '\n' :: (joinLines ls ++ rest) := by
      simp [joinLines]
    rw [hjoin, hl.lines_append, ih h, List.cons_append]

theorem intercalate_joinLines (ls : List (List Char)) (last : List Char) :
    List.intercalate ['\n'] (ls ++ [last]) = joinLines ls ++ last := by
  induction ls with
  | nil => simp [joinLines]
  | cons l ls ih =>
    obtain ⟨m, ms, hm⟩ : ∃ m ms, ls ++ [last] = m :: ms :=
      List.exists_cons_of_ne_nil (by simp)
    rw [List.cons_append, hm, List.intercalate_cons_cons, ← hm, ih]
    simp [joinLines]

/-- **Lines that are not empty get a tab each.** -/
theorem indentLines_joinLines {s : String} {ls : List (List Char)} {last : List Char}
    (hs : s.toList = joinLines ls ++ last) (h : ∀ l ∈ ls, OneLine l ∧ l ≠ [])
    (hlast : OneLine last ∧ last ≠ []) :
    (indentLines s).toList = joinLines (ls.map ('\t' :: ·)) ++ '\t' :: last := by
  have hlines : lines s.toList = ls ++ [last] := by
    rw [hs, lines_joinLines (fun l hl => (h l hl).1), hlast.1.lines_eq hlast.2]
  have htab : ∀ l ∈ ls ++ [last], (if l.isEmpty then "" else "\t" ++ String.ofList l).toList =
      '\t' :: l := by
    intro l hl
    have hne : l ≠ [] := by
      rcases List.mem_append.1 hl with hl | hl
      · exact (h l hl).2
      · rw [List.mem_singleton.1 hl]
        exact hlast.2
    simp [hne]
  rw [indentLines, hlines, String.toList_intercalate, List.map_map, ← intercalate_joinLines]
  refine congrArg _ ((List.map_congr_left htab).trans ?_)
  rw [List.map_append, List.map_singleton]

theorem indentLines_line {s : String} (h : OneLine s.toList) (hne : s.toList ≠ []) :
    (indentLines s).toList = '\t' :: s.toList :=
  indentLines_joinLines (by simp [joinLines]) (List.forall_mem_nil _) ⟨h, hne⟩

end Lines

/-! ## Lexemes on one line -/

/-- Whether a lexeme is a blank or a token that cannot go over the end of a line. -/
def Lexeme.isInline : Lexeme → Bool
  | .layout text => text == [' ']
  | .token kind _ => kind ∉ [Kind.string, .rune, .rawString]
  | .bad _ => false

theorem oneLine_spell {ls : List Lexeme} {rest : List Char} (h : StandBefore ls rest)
    (hl : ∀ l ∈ ls, l.isInline = true) : OneLine (spellLexemes ls) := by
  induction ls with
  | nil => exact oneLine_nil
  | cons l ls ih =>
    obtain ⟨hstand, h⟩ := (standBefore_cons _ _ _).1 h
    obtain ⟨hin, hl⟩ := List.forall_mem_cons.1 hl
    rw [spellLexemes_cons]
    refine OneLine.append ?_ (ih h hl)
    cases l with
    | layout text =>
      rw [Lexeme.text_layout, eq_of_beq hin]
      exact oneLine_singleton (by decide)
    | token kind text =>
      obtain ⟨c, cs, -, hnext⟩ := hstand
      exact ⟨next_no_newline hnext (of_decide_eq_true hin), next_last_ne hnext⟩
    | bad text => exact absurd hin (by simp [Lexeme.isInline])

theorem Sound.oneLine {ls : List Lexeme} (h : Sound ls) (hl : ∀ l ∈ ls, l.isInline = true) :
    OneLine (spellLexemes ls) :=
  oneLine_spell (h.stand (d := ' ') (by decide) []) hl

theorem closed_inline : Closed Leaf.Reads (fun ls => ∀ l ∈ ls, l.isInline = true) :=
  closed_forall rfl (fun _ _ hk => decide_eq_true hk)
    (fun s hs => by
      rcases hs with hs | hs <;> rw [show lexemes s.toList = _ from hs] <;> simp [Lexeme.isInline])
    id fun _ => id

theorem IsType.oneLine {t : TypeExpr} (h : IsType Leaf.Reads false t) :
    OneLine (spellLexemes (typeLexemes false t)) :=
  (h.mono fun _ _ hl => hl.lexes).sound.oneLine (h.closed closed_inline)

theorem Sound.spell_ne_nil {ls : List Lexeme} (h : Sound ls) (hne : ls ≠ []) :
    spellLexemes ls ≠ [] := by
  obtain ⟨l, ls, rfl⟩ := List.exists_cons_of_ne_nil hne
  have hstand := h.stand (d := ' ') (by decide) []
  simpa using fun he => absurd he hstand.1.text_ne_nil

/-! ## Types of declarations -/

/-- The fields of a struct, each with the number of blanks beyond one between its names and its
type. -/
def alignedEntries (width : Option Nat) : List FieldGroup → List (Nat × FieldGroup)
  | [] => []
  | field :: fields =>
    if field.isEmbedded then (0, field) :: alignedEntries none fields
    else
      let width := width.getD (runWidth (field :: fields))
      (width - namesWidth field, field) :: alignedEntries (some width) fields

/-- The lexemes of the type of a declaration, with `tabs` before each line but the first. -/
def printedLexemes : List Lexeme → TypeExpr → List Lexeme :=
  declaredLexemes false (alignedEntries none)

theorem alignedEntries_snd (width : Option Nat) (fields : List FieldGroup) :
    (alignedEntries width fields).map Prod.snd = fields := by
  induction fields generalizing width with
  | nil => rfl
  | cons field fields ih =>
    rw [alignedEntries]
    split
    · rw [List.map_cons, ih]
    · simp only [List.map_cons, ih]

theorem foldl_max_eq (a : Nat) (ns : List Nat) : ns.foldl max a = max a (ns.foldl max 0) := by
  induction ns generalizing a with
  | nil => simp
  | cons n ns ih =>
    rw [List.foldl_cons, List.foldl_cons, ih, ih (max 0 n)]
    omega

theorem runWidth_cons {field : FieldGroup} (h : field.isEmbedded = false)
    (fields : List FieldGroup) :
    runWidth (field :: fields) = max (namesWidth field) (runWidth fields) := by
  rw [runWidth, List.takeWhile_cons_of_pos (by simp [h]), List.map_cons, List.foldl_cons,
    foldl_max_eq, Nat.zero_max]
  rfl

theorem spell_blanks (k : Nat) :
    spellLexemes (List.replicate k (.layout [' '])) = List.replicate k ' ' := by
  induction k with
  | zero => rfl
  | succ k ih => simp [List.replicate_succ, ih]

/-- The text of a field on a line of its own. -/
theorem spell_aligned_named {field : FieldGroup} (h : field.isEmbedded = false) (k : Nat) :
    spellLexemes (alignedLexemes false (k, field)) =
      (String.intercalate ", " field.names).toList ++ (List.replicate (k + 1) ' ' ++
        (renderType .verbatim field.type).toList) := by
  rw [FieldGroup.isEmbedded] at h
  simp [alignedLexemes, paddedLexemes, h, spell_namesLexemes, spell_blanks,
    spell_typeLexemes_verbatim]

theorem spell_aligned_embedded {field : FieldGroup} (h : field.isEmbedded = true) (k : Nat) :
    spellLexemes (alignedLexemes false (k, field)) = (renderType .verbatim field.type).toList := by
  rw [FieldGroup.isEmbedded] at h
  simp [alignedLexemes, paddedLexemes, h, spell_typeLexemes_verbatim]

theorem spell_linesLexemes {α : Type} (g : α → List Lexeme) (pad : List Lexeme) (xs : List α) :
    spellLexemes (linesLexemes g (xs.map fun x => (pad, x))) =
      joinLines (xs.map fun x => spellLexemes pad ++ spellLexemes (g x)) := by
  induction xs with
  | nil => rfl
  | cons x xs ih =>
    rw [List.map_cons, linesLexemes_cons, spellLexemes_append, spellLexemes_append,
      spellLexemes_cons, ih]
    simp [joinLines]

/-- The widths that are carried along a run of fields leave room for all names in it. -/
theorem alignedFields_eq {width : Option Nat} {fields : List FieldGroup}
    (h : ∀ w ∈ width, runWidth fields ≤ w) :
    (alignedFields width fields).toList = joinLines ((alignedEntries width fields).map fun x =>
      '\t' :: spellLexemes (alignedLexemes false x)) := by
  induction fields generalizing width with
  | nil => rfl
  | cons field fields ih =>
    rw [alignedFields, alignedEntries]
    cases he : field.isEmbedded with
    | true =>
      have ih := @ih none (by simp)
      simp [ih, joinLines, spell_aligned_embedded he]
    | false =>
      generalize hw : width.getD (runWidth (field :: fields)) = w
      have hle : runWidth (field :: fields) ≤ w := by
        cases width with
        | none => exact Nat.le_of_eq hw
        | some v => exact hw ▸ h v rfl
      rw [runWidth_cons he] at hle
      have ih := @ih (some w) (by simpa using by omega)
      have hroom : w + 1 - (String.intercalate ", " field.names).length =
          w - namesWidth field + 1 := by
        rw [namesWidth] at hle ⊢
        omega
      simp [ih, joinLines, spell_aligned_named he, hroom]

/-- The text of a block: the line with its keyword, its entries, and the rest. -/
theorem spell_block {α : Type} (tabs : List Lexeme) (keyword : String) (g : α → List Lexeme)
    (xs : List α) :
    spellLexemes (blockLexemes tabs keyword g xs) =
      joinLines ((keyword.toList ++ [' ', '{']) ::
        xs.map fun x => spellLexemes tabs ++ '\t' :: spellLexemes (g x)) ++
        (spellLexemes tabs ++ ['}']) := by
  have hlines := spell_linesLexemes g (tabs ++ [.layout ['\t']]) xs
  simp only [blockLexemes, spellLexemes_cons, spellLexemes_append, hlines]
  simp [joinLines]

/-- A type of a declaration has several lines only if it is a struct or interface with entries. -/
theorem printed_cases (t : TypeExpr) :
    (∃ field fields, t = .struct (field :: fields)) ∨
      (∃ elem elems, t = .interface (elem :: elems)) ∨
      ((∀ tabs, printedLexemes tabs t = typeLexemes false t) ∧
        printType t = renderType .verbatim t) := by
  fun_cases printType t with
  | case1 field fields => exact Or.inl ⟨field, fields, rfl⟩
  | case2 elem elems => exact Or.inr (Or.inl ⟨elem, elems, rfl⟩)
  | case3 _ hs hi =>
    exact Or.inr (Or.inr ⟨fun tabs => declaredLexemes.eq_3 _ _ tabs t hs hi, rfl⟩)

theorem interfaceLines_eq (es : List InterfaceElem) :
    (String.join ((interfaceLines .verbatim es).map fun line => "\t" ++ line ++ "\n")).toList =
      joinLines (es.map fun e => '\t' :: spellLexemes (elemLexemes false e)) := by
  rw [interfaceLines_verbatim]
  induction es with
  | nil => rfl
  | cons e es ih =>
    have he := spell_elem_verbatim (e := e) fun t _ => spell_typeLexemes_verbatim t
    rw [List.map_cons, List.map_cons, String.join_cons, String.toList_append, ih, List.map_cons,
      he]
    simp [joinLines]

theorem printType_eq (t : TypeExpr) :
    (printType t).toList = spellLexemes (printedLexemes [] t) := by
  obtain ⟨field, fields, rfl⟩ | ⟨elem, elems, rfl⟩ | ⟨hl, hr⟩ := printed_cases t
  · rw [printType, printedLexemes, declaredLexemes, spell_block]
    simp [alignedFields_eq, joinLines]
  · have hlines := interfaceLines_eq (elem :: elems)
    rw [printType, printedLexemes, declaredLexemes, spell_block, String.toList_append, String.toList_append, hlines]
    simp [joinLines]
  · rw [hl, hr, spell_typeLexemes_verbatim]

/-- A block moved to the right: its first line follows `pre`, its last precedes `post`. -/
theorem indentLines_block {α : Type} {s : String} {pre post : List Lexeme} {keyword : String}
    {g : α → List Lexeme} {xs : List α}
    (hs : s.toList = spellLexemes (pre ++ (blockLexemes [] keyword g xs ++ post)))
    (hpre : OneLine (spellLexemes pre)) (hpost : OneLine (spellLexemes post))
    (hk : OneLine keyword.toList) (hxs : ∀ x ∈ xs, OneLine (spellLexemes (g x))) :
    (indentLines s).toList =
      '\t' :: spellLexemes (pre ++ (blockLexemes [.layout ['\t']] keyword g xs ++ post)) := by
  have hfirst : OneLine (spellLexemes pre ++ (keyword.toList ++ [' ', '{'])) :=
    hpre.append (hk.append ((oneLine_singleton (by decide)).cons (by decide)))
  have hlines : s.toList = joinLines ((spellLexemes pre ++ (keyword.toList ++ [' ', '{'])) ::
      xs.map fun x => '\t' :: spellLexemes (g x)) ++ '}' :: spellLexemes post := by
    rw [hs, spellLexemes_append, spellLexemes_append, spell_block]
    simp [joinLines]
  rw [indentLines_joinLines hlines ?_ ⟨hpost.cons (by decide), by simp⟩, spellLexemes_append,
    spellLexemes_append, spell_block]
  · simp [joinLines, Function.comp_def]
  · refine List.forall_mem_cons.2 ⟨⟨hfirst, by simp⟩, fun l hl => ?_⟩
    obtain ⟨x, hx, rfl⟩ := List.mem_map.1 hl
    exact ⟨(hxs x hx).cons (by decide), by simp⟩

theorem oneLine_aligned {x : Nat × FieldGroup} (hn : ∀ n ∈ x.2.names, IsToken .ident n)
    (h : IsType Leaf.Reads false x.2.type) :
    OneLine (spellLexemes (alignedLexemes false x)) := by
  have hsound : Sound (alignedLexemes false x) :=
    sound_padded (fun n hm => (isToken_ident_iff.1 (hn n hm)).1)
      (h.mono fun _ _ hl => hl.lexes).sound
  refine hsound.oneLine ?_
  rw [alignedLexemes, paddedLexemes]
  split
  · exact h.closed closed_inline
  · refine List.forall_mem_append.2 ⟨closed_inline.names _, List.forall_mem_append.2 ⟨?_, ?_⟩⟩
    · intro l hl
      rw [List.eq_of_mem_replicate hl]
      rfl
    · exact h.closed closed_inline

theorem oneLine_elem {e : InterfaceElem}
    (h : IsElemOf Leaf.Reads false (IsType Leaf.Reads false) e) :
    OneLine (spellLexemes (elemLexemes false e)) :=
  (h.imp fun _ => Leaf.Reads.lexes).sound.oneLine
    (closed_inline.elem (h.mono fun _ ht => ht.closed closed_inline))

/-- **An entry moved to the right is the entry with a tab before each of its lines.** -/
theorem indentLines_printed {s : String} {pre post : List Lexeme} {t : TypeExpr}
    (hs : s.toList = spellLexemes (pre ++ (printedLexemes [] t ++ post)))
    (hpre : OneLine (spellLexemes pre)) (hpost : OneLine (spellLexemes post))
    (h : IsType Leaf.Reads false t) :
    (indentLines s).toList =
      '\t' :: spellLexemes (pre ++ (printedLexemes [.layout ['\t']] t ++ post)) := by
  obtain ⟨field, fields, rfl⟩ | ⟨elem, elems, rfl⟩ | ⟨hl, -⟩ := printed_cases t
  · cases h with
    | struct hn hf =>
      refine indentLines_block hs hpre hpost ⟨by decide, by decide⟩ fun x hx => ?_
      have hx := mem_of_align (alignedEntries_snd none) hx
      exact oneLine_aligned (hn _ hx) (hf _ hx)
  · cases h with
    | interface he =>
      exact indentLines_block hs hpre hpost ⟨by decide, by decide⟩ fun e hm =>
        oneLine_elem (he e hm)
  · rw [hl] at hs ⊢
    have hone : OneLine s.toList := by
      rw [hs, spellLexemes_append, spellLexemes_append]
      exact hpre.append (h.oneLine.append hpost)
    obtain ⟨k, text, ls, hfirst, -⟩ := (h.mono fun _ _ hl => hl.readsBack).first
    have hne : s.toList ≠ [] := by
      have hs' : Sound (typeLexemes false t) := (h.mono fun _ _ hl => hl.lexes).sound
      have ht := hs'.spell_ne_nil (by simp [hfirst])
      rw [hs]
      simp [ht]
    rw [indentLines_line hone hne, hs]

/-- Whether some lexemes are tabs. -/
def AreTabs (tabs : List Lexeme) : Prop := ∀ l ∈ tabs, l = .layout ['\t']

theorem AreTabs.isLayout {tabs : List Lexeme} (h : AreTabs tabs) :
    ∀ l ∈ tabs, l.isLayout = true := by
  intro l hl
  rw [h l hl]
  rfl

theorem AreTabs.free {tabs : List Lexeme} (h : AreTabs tabs) : Free tabs := by
  induction tabs with
  | nil => exact free_nil
  | cons l tabs ih =>
    obtain ⟨rfl, htabs⟩ := List.forall_mem_cons.1 h
    exact (ih htabs).cons rfl

theorem IsType.printed_writes {tabs : List Lexeme} (htabs : AreTabs tabs) {t : TypeExpr}
    (h : IsType Leaf.ReadsBack false t) : Writes (printedLexemes tabs t) t :=
  h.declared_writes (alignedEntries_snd none) htabs.isLayout

theorem IsType.printed_sound {tabs : List Lexeme} (htabs : AreTabs tabs) {t : TypeExpr}
    (h : IsType Leaf.Lexes false t) : Sound (printedLexemes tabs t) :=
  h.declared_sound (alignedEntries_snd none) htabs.free

/-! ## Initializers and entries -/

/-- Whether an initializer can be printed: it is on one line, its brackets have their partners, no
comma or semicolon outside of them would end it, and it ends a statement. -/
structure IsInitializer (value : Initializer) : Prop where
  first : ∃ k text ls, lexemes value.text.toList = .token k text :: ls
  good : ∀ l ∈ lexemes value.text.toList, l.isBad = false
  newline : '\n' ∉ value.text.toList
  balanced : Balanced (lexemes value.text.toList)
  top : ∀ k ∈ topKinds 0 (lexemes value.text.toList), k ∉ [Kind.comma, .semi]
  ends : EndsLine (lexemes value.text.toList)
  literal : value.isLiteral = isLiteralKinds (tokenKinds (lexemes value.text.toList))

/-- A text that ends with a token can stand before a boundary: the token is not one that a byte
order mark behind it makes a name. -/
theorem sound_of_last {cs : List Char} {ms : List Lexeme} {l : Lexeme}
    (hg : ∀ l ∈ lexemes cs, l.isBad = false) (hl : lexemes cs = ms ++ [l])
    (hlayout : l.isLayout = false) : Sound (lexemes cs) where
  stand hd rest := by
    refine (standBefore_lexemes cs).before_boundary hg (fun l' hlast => ?_) hd rest
    rw [hl, List.getLast?_concat, Option.some.injEq] at hlast
    subst hlast
    have hstand := standBefore_lexemes cs
    rw [hl, standBefore_append] at hstand
    refine (hstand.2.1.last (hg l (by simp [hl]))).resolve_right ?_
    rintro ⟨u, -, rfl⟩
    cases hlayout
  good := hg

theorem mem_spellLexemes {l : Lexeme} {ls : List Lexeme} (h : l ∈ ls) {c : Char}
    (hc : c ∈ l.text) : c ∈ spellLexemes ls :=
  List.mem_flatMap.2 ⟨l, h, hc⟩

theorem IsInitializer.writes {value : Initializer} (h : IsInitializer value) :
    WritesValue (lexemes value.text.toList) value := by
  have hline : ∀ text, .layout text ∈ lexemes value.text.toList → '\n' ∉ text := by
    intro text hm hn
    refine h.newline ?_
    rw [← spellLexemes_lexemes value.text.toList]
    exact mem_spellLexemes hm hn
  have hw := writesValue_line h.first h.good h.balanced h.top hline h.ends
  rwa [spellLexemes_lexemes, String.ofList_toList, ← h.literal] at hw

theorem IsInitializer.oneLine {value : Initializer} (h : IsInitializer value) :
    OneLine value.text.toList := by
  refine ⟨h.newline, ?_⟩
  obtain ⟨ms, k, text, hl, -⟩ := h.ends
  have hstand := standBefore_lexemes value.text.toList
  rw [hl, standBefore_append] at hstand
  obtain ⟨c, cs, -, hnext⟩ := hstand.2.1
  rw [← spellLexemes_lexemes value.text.toList, hl, spellLexemes_append, spellLexemes_cons,
    spellLexemes_nil, List.append_nil, List.getLast?_append]
  have hlast := next_last_ne hnext
  cases ht : text.getLast? with
  | none => exact absurd (List.getLast?_eq_none_iff.1 ht) hstand.2.1.text_ne_nil
  | some d =>
    rw [ht] at hlast
    simpa [ht] using hlast

/-- Whether an entry is printed as the lexemes of `g`, on its own or between parentheses. -/
structure Prints {α : Type} (spec : Parser α) (text : α → String)
    (g : List Lexeme → α → List Lexeme) (x : α) : Prop where
  reads : ∀ {tabs : List Lexeme}, AreTabs tabs → SpecReads spec (g tabs x) x
  sound : ∀ {tabs : List Lexeme}, AreTabs tabs → Sound (g tabs x)
  spells : (text x).toList = spellLexemes (g [] x)
  indents : (indentLines (text x)).toList = '\t' :: spellLexemes (g [.layout ['\t']] x)

/-- Whether an entry of a `const` or `var` declaration can be printed. -/
structure IsValueSpec (spec : ValueSpec) : Prop where
  named : spec.names ≠ []
  names : ∀ n ∈ spec.names, IsToken .ident n
  type : ∀ t ∈ spec.type, IsType Leaf.Reads false t
  values : ∀ v ∈ spec.values, IsInitializer v

/-- The lexemes of an entry of a `const` or `var` declaration. -/
def printedValue (tabs : List Lexeme) (spec : ValueSpec) : List Lexeme :=
  valueSpecLexemes spec.names (spec.type.map (printedLexemes tabs))
    (spec.values.map fun v => lexemes v.text.toList)

/-- The lexemes of initializers, with the equals sign before them. -/
def valuesLexemes (values : List Initializer) : List Lexeme :=
  if values.isEmpty then []
  else .layout [' '] :: .token .assign ['='] :: .layout [' '] ::
    List.intercalate [.token .comma [','], .layout [' ']]
      (values.map fun v => lexemes v.text.toList)

theorem spell_values (values : List Initializer) :
    spellLexemes (valuesLexemes values) =
      (if values.isEmpty then ""
        else " = " ++ String.intercalate ", " (values.map Initializer.text)).toList := by
  have hs := spell_intercalate (g := fun v => lexemes v.text.toList) (r := Initializer.text)
    spell_commaBlank fun v (_ : v ∈ values) => spellLexemes_lexemes v.text.toList
  unfold valuesLexemes
  split
  · rfl
  · simp [hs]

theorem oneLine_intercalate {between : List Char} (hb : OneLine between) {lss : List (List Char)}
    (h : ∀ l ∈ lss, OneLine l) : OneLine (List.intercalate between lss) := by
  refine intercalate_induction (fun _ => oneLine_nil) h fun l hl m hm => ?_
  exact (h l hl).append (hb.append hm)

theorem oneLine_values {values : List Initializer} (h : ∀ v ∈ values, IsInitializer v) :
    OneLine (spellLexemes (valuesLexemes values)) := by
  rw [spell_values]
  split
  · exact oneLine_nil
  · rw [String.toList_append, String.toList_intercalate]
    refine OneLine.append ⟨by decide, by decide⟩ (oneLine_intercalate ⟨by decide, by decide⟩ ?_)
    intro l hl
    rw [List.map_map] at hl
    obtain ⟨v, hv, rfl⟩ := List.mem_map.1 hl
    exact (h v hv).oneLine

theorem oneLine_names {names : List String} (h : ∀ n ∈ names, IsToken .ident n) :
    OneLine (spellLexemes (namesLexemes names)) :=
  (sound_names fun n hn => (isToken_ident_iff.1 (h n hn)).1).oneLine (closed_inline.names names)

theorem printedValue_eq (tabs : List Lexeme) (spec : ValueSpec) :
    printedValue tabs spec = namesLexemes spec.names ++
      ((spec.type.map fun t => .layout [' '] :: printedLexemes tabs t).getD [] ++
        valuesLexemes spec.values) := by
  simp only [printedValue, valueSpecLexemes, valuesLexemes, Option.map_map, List.isEmpty_map]
  rfl

theorem spell_printedValue (spec : ValueSpec) :
    (printValueSpec spec).toList = spellLexemes (printedValue [] spec) := by
  obtain ⟨names, type, values⟩ := spec
  rw [printedValue_eq, spellLexemes_append, spellLexemes_append, spell_values, spell_namesLexemes,
    printValueSpec, String.toList_append, String.toList_append]
  cases type with
  | none => simp
  | some t => simp [printType_eq]

theorem prints_value {spec : ValueSpec} (h : IsValueSpec spec) :
    Prints valueSpec printValueSpec printedValue spec := by
  obtain ⟨names, type, values⟩ := spec
  obtain ⟨hne, hn, ht, hv⟩ := h
  have hspell := spell_printedValue ⟨names, type, values⟩
  have hreads : ∀ {tabs : List Lexeme}, AreTabs tabs →
      SpecReads valueSpec (printedValue tabs ⟨names, type, values⟩) ⟨names, type, values⟩ := by
    intro tabs htabs
    have htype : ∀ p ∈ type.map fun t => (printedLexemes tabs t, t), Writes p.1 p.2 := by
      intro p hp
      obtain ⟨t, hm, rfl⟩ := Option.map_eq_some_iff.1 hp
      exact ((ht t hm).mono fun _ _ hl => hl.readsBack).printed_writes htabs
    have hvalues : ∀ p ∈ values.map fun v => (lexemes v.text.toList, v),
        WritesValue p.1 p.2 := by
      intro p hp
      obtain ⟨v, hm, rfl⟩ := List.mem_map.1 hp
      exact (hv v hm).writes
    have hr := valueSpec_reads hne hn htype hvalues
    simpa [printedValue, Function.comp_def] using hr
  have hsound : ∀ {tabs : List Lexeme}, AreTabs tabs →
      Sound (printedValue tabs ⟨names, type, values⟩) := by
    intro tabs htabs
    refine sound_valueSpec (fun n hm => (isToken_ident_iff.1 (hn n hm)).1) ?_ ?_
    · intro ls hls
      obtain ⟨t, hm, rfl⟩ := Option.map_eq_some_iff.1 hls
      exact ((ht t hm).mono fun _ _ hl => hl.lexes).printed_sound htabs
    · intro ls hls
      obtain ⟨v, hm, rfl⟩ := List.mem_map.1 hls
      obtain ⟨ms, k, text, hl, -⟩ := (hv v hm).ends
      exact sound_of_last (hv v hm).good hl rfl
  refine ⟨hreads, hsound, hspell, ?_⟩
  have hnames := oneLine_names hn
  have hvalues := oneLine_values hv
  -- Only the type can be over several lines, and its lines are those that are indented.
  cases type with
  | none =>
    have htabs : AreTabs [] := by simp [AreTabs]
    obtain ⟨k, text, ls, hfirst, -⟩ := (hreads htabs).first
    have hone : OneLine (printValueSpec ⟨names, none, values⟩).toList := by
      rw [hspell, printedValue_eq, spellLexemes_append]
      exact hnames.append hvalues
    rw [indentLines_line hone ?_, hspell]
    · rfl
    · rw [hspell]
      exact (hsound htabs).spell_ne_nil (by simp [hfirst])
  | some t =>
    have hpre : OneLine (spellLexemes (namesLexemes names ++ [.layout [' ']])) := by
      rw [spellLexemes_append]
      exact hnames.append (oneLine_singleton (by decide))
    rw [printedValue_eq] at hspell ⊢
    have hs : (printValueSpec ⟨names, some t, values⟩).toList = spellLexemes
        ((namesLexemes names ++ [.layout [' ']]) ++
          (printedLexemes [] t ++ valuesLexemes values)) := by
      simpa using hspell
    simpa using indentLines_printed hs hpre hvalues (ht t rfl)

/-- Whether an entry of a `type` declaration can be printed. -/
structure IsTypeSpec (spec : TypeSpec) : Prop where
  name : IsToken .ident spec.name
  params : ∀ f ∈ spec.typeParams, IsTypeParam Leaf.Reads false f
  opens : OpensTypeParams spec.typeParams
  type : IsType Leaf.Reads false spec.type

/-- The lexemes of an entry of a `type` declaration. -/
def printedTypeSpec (tabs : List Lexeme) (spec : TypeSpec) : List Lexeme :=
  typeSpecLexemes false spec.name spec.typeParams spec.isAlias (printedLexemes tabs spec.type)

theorem spell_typeParams (fs : List FieldGroup) :
    spellLexemes (typeParamsLexemes false fs) = (renderTypeParams .verbatim fs).toList := by
  have hs := spell_fields_verbatim spell_commaBlank
    fun f (_ : f ∈ fs) => spell_typeLexemes_verbatim f.type
  unfold typeParamsLexemes renderTypeParams
  split
  · rfl
  · simp [hs, renderParams]

theorem inline_typeParams {fs : List FieldGroup}
    (h : ∀ f ∈ fs, IsTypeParam Leaf.Reads false f) :
    ∀ l ∈ typeParamsLexemes false fs, l.isInline = true := by
  unfold typeParamsLexemes
  split
  · exact closed_inline.nil
  · refine closed_inline.bracket (by decide) (closed_inline.commas (closed_inline.fields ?_))
    exact fun f hf => closed_inline.constraint
      ((h f hf).constraint.mono fun _ ht => ht.closed closed_inline)

/-- The lexemes of an entry are those before its type and then those of the type. -/
theorem typeSpecLexemes_append (erased : Bool) (name : String) (params : List FieldGroup)
    (isAlias : Bool) (ls : List Lexeme) :
    typeSpecLexemes erased name params isAlias ls =
      typeSpecLexemes erased name params isAlias [] ++ (ls ++ []) := by
  simp [typeSpecLexemes]

theorem spell_printedTypeSpec (spec : TypeSpec) :
    (printTypeSpec spec).toList = spellLexemes (printedTypeSpec [] spec) := by
  obtain ⟨name, params, isAlias, type⟩ := spec
  have hparams := spell_typeParams params
  cases isAlias <;> simp [printTypeSpec, printedTypeSpec, typeSpecLexemes, hparams, printType_eq]

theorem prints_typeSpec {spec : TypeSpec} (h : IsTypeSpec spec) :
    Prints typeSpec printTypeSpec printedTypeSpec spec := by
  obtain ⟨name, params, isAlias, type⟩ := spec
  obtain ⟨hn, hp, ho, ht⟩ := h
  have hspell := spell_printedTypeSpec ⟨name, params, isAlias, type⟩
  have hword := (isToken_ident_iff.1 hn).1
  have hlexes : ∀ f ∈ params, IsTypeParam Leaf.Lexes false f :=
    fun f hf => (hp f hf).imp fun _ => Leaf.Reads.lexes
  have hreads : ∀ f ∈ params, IsTypeParam Leaf.ReadsBack false f :=
    fun f hf => (hp f hf).imp fun _ => Leaf.Reads.readsBack
  have htype : IsType Leaf.ReadsBack false type := ht.mono fun _ _ hl => hl.readsBack
  refine ⟨fun htabs => typeSpec_reads hn hreads ho (htype.printed_writes htabs),
    fun htabs => sound_typeSpec hword hlexes
      ((ht.mono fun _ _ hl => hl.lexes).printed_sound htabs), hspell, ?_⟩
  have hbefore : OneLine (spellLexemes (typeSpecLexemes false name params isAlias [])) := by
    refine (sound_typeSpec hword hlexes free_nil.sound).oneLine ?_
    rw [typeSpecLexemes]
    refine closed_inline.consWord name (closed_inline.append (inline_typeParams hp)
      (closed_inline.append ?_ closed_inline.blank))
    cases isAlias <;> simp [Lexeme.isInline]
  rw [printedTypeSpec, typeSpecLexemes_append] at hspell ⊢
  exact indentLines_printed hspell hbefore oneLine_nil ht

/-! ## Declarations -/

/-- The lexemes of the entries of a declaration, where `g` gives those of each. -/
def entriesLexemes {α : Type} (g : List Lexeme → α → List Lexeme) : List α → List Lexeme
  | [x] => g [] x
  | xs => groupLexemes (g [.layout ['\t']]) (xs.map fun x => ([.layout ['\t']], x))

section Group

variable {α : Type} {spec : Parser α} {text : α → String} {g : List Lexeme → α → List Lexeme}
  {xs : List α}

/-- Entries are in parentheses unless there is exactly one. -/
theorem entries_cases (text : α → String) (g : List Lexeme → α → List Lexeme) (xs : List α) :
    (∃ x, xs = [x]) ∨ (entriesLexemes g xs =
      groupLexemes (g [.layout ['\t']]) (xs.map fun x => ([.layout ['\t']], x)) ∧
      ∀ keyword, printGroup keyword (xs.map text) = keyword ++ " (\n" ++
        String.join ((xs.map text).map fun spec => indentLines spec ++ "\n") ++ ")") := by
  match xs with
  | [x] => exact Or.inl ⟨x, rfl⟩
  | [] | _ :: _ :: _ => exact Or.inr ⟨rfl, fun _ => rfl⟩

theorem areTabs_nil : AreTabs [] := by simp [AreTabs]

theorem areTabs_tab : AreTabs [.layout ['\t']] := by simp [AreTabs]

variable (h : ∀ x ∈ xs, Prints spec text g x)
include h

theorem spell_entries (keyword : String) :
    (printGroup keyword (xs.map text)).toList =
      spellLexemes (declLexemes keyword (entriesLexemes g xs)) := by
  obtain ⟨x, rfl⟩ | ⟨hl, hr⟩ := entries_cases text g xs
  · simp [printGroup, entriesLexemes, declLexemes, (h x (by simp)).spells]
  · have hjoin : (String.join ((xs.map text).map fun spec => indentLines spec ++ "\n")).toList =
        joinLines (xs.map fun x => '\t' :: spellLexemes (g [.layout ['\t']] x)) := by
      clear hl hr
      induction xs with
      | nil => rfl
      | cons x xs ih =>
        obtain ⟨hx, h⟩ := List.forall_mem_cons.1 h
        rw [List.map_cons, List.map_cons, String.join_cons, String.toList_append, ih h,
          String.toList_append, hx.indents]
        simp [joinLines]
    have hlines := spell_linesLexemes (g [.layout ['\t']]) [.layout ['\t']] xs
    rw [hl, hr, String.toList_append, String.toList_append, String.toList_append, hjoin,
      declLexemes, groupLexemes, spellLexemes_cons, spellLexemes_cons, spellLexemes_cons,
      spellLexemes_cons, spellLexemes_append, hlines]
    simp

theorem sound_entries : Sound (entriesLexemes g xs) := by
  obtain ⟨x, rfl⟩ | ⟨hl, -⟩ := entries_cases text g xs
  · exact (h x (by simp)).sound areTabs_nil
  · rw [hl]
    refine (Free.cons rfl (Free.cons rfl (Free.append ?_ (free_of_isFree rfl)))).sound
    refine free_lines ?_ ?_ <;> intro x hx <;> obtain ⟨y, hy, rfl⟩ := List.mem_map.1 hx
    · exact areTabs_tab.free
    · exact (h y hy).sound areTabs_tab

theorem entries_read (s : Scanner) (u : Token) (rest : List Token) (hu : u.kind = .semi) :
    group spec (s.tokens (entriesLexemes g xs) ++ u :: rest) = .ok (xs, u :: rest) := by
  obtain ⟨x, rfl⟩ | ⟨hl, -⟩ := entries_cases text g xs
  · exact group_single s rest ((h x (by simp)).reads areTabs_nil) hu
  · rw [hl, group_reads s rest]
    · simp [Function.comp_def]
    all_goals
      intro x hx
      obtain ⟨y, hy, rfl⟩ := List.mem_map.1 hx
    · exact areTabs_tab.isLayout
    · exact (h y hy).reads areTabs_tab

theorem endsLine_entries : EndsLine (entriesLexemes g xs) := by
  obtain ⟨x, rfl⟩ | ⟨hl, -⟩ := entries_cases text g xs
  · exact ((h x (by simp)).reads areTabs_nil).ends
  · rw [hl]
    exact (((endsLine_token rfl _).append _).cons _).cons _

end Group

/-! ## Functions -/

/-- A body that is laid out is empty or ends with a line end. -/
theorem layoutInner_last (body : List Char) :
    layoutInner body = [] ∨ (layoutInner body).getLast? = some '\n' := by
  have hlast : ∀ (f : List Char → List Char) (ls : List (List Char)),
      ('\n' :: ls.flatMap fun l => f l ++ ['\n']).getLast? = some '\n' := by
    intro f ls
    rcases List.eq_nil_or_concat ls with rfl | ⟨ms, m, rfl⟩
    · rfl
    · rw [List.concat_eq_append, List.flatMap_append, List.flatMap_singleton, ← List.append_assoc,
        ← List.cons_append, List.getLast?_concat]
  unfold layoutInner
  split
  · split <;> simp
  · exact Or.inr (hlast _ _)

/-- A comment to the end of a line does not take the line end with it. -/
theorem settled_of_newline {l : Lexeme} (h : l.StandsBefore []) (hg : l.isBad = false)
    (hn : '\n' ∈ l.text) : l.Settled := by
  refine (h.last hg).resolve_right ?_
  rintro ⟨u, hu, rfl⟩
  exact hu (by simpa using hn)

/-- A text that ends with a line end can stand before a boundary. -/
theorem sound_of_newline {cs : List Char} (hg : ∀ l ∈ lexemes cs, l.isBad = false)
    (hn : cs.getLast? = some '\n') : Sound (lexemes cs) where
  stand hd rest := by
    refine (standBefore_lexemes cs).before_boundary hg (fun l hlast => ?_) hd rest
    obtain ⟨ms, hms⟩ := List.getLast?_eq_some_iff.1 hlast
    have hstand := standBefore_lexemes cs
    rw [hms, standBefore_append] at hstand
    have hspell : spellLexemes ms ++ l.text = cs := by
      rw [← spellLexemes_lexemes cs, hms]
      simp
    have hne := hstand.2.1.text_ne_nil
    refine settled_of_newline hstand.2.1 (hg l (by simp [hms])) ?_
    rw [← hspell, List.getLast?_append, List.getLast?_eq_some_getLast hne, Option.some_or] at hn
    exact Option.some.inj hn ▸ List.getLast_mem hne
  good := hg

/-- Whether the body of a function can be printed as it is. -/
structure IsBody (body : String) : Prop where
  laidOut : layoutInner body.toList = body.toList
  good : ∀ l ∈ lexemes body.toList, l.isBad = false
  balanced : Balanced (lexemes body.toList)

theorem IsBody.sound {body : String} (h : IsBody body) : Sound (lexemes body.toList) := by
  have hlast := layoutInner_last body.toList
  rw [h.laidOut] at hlast
  rcases hlast with hnil | hlast
  · rw [hnil, lexemes_nil]
    exact free_nil.sound
  · exact sound_of_newline h.good hlast

/-- Whether a function can be printed. -/
structure IsFuncDecl (decl : FuncDecl) : Prop where
  receiver : ∀ fs ∈ decl.receiver, IsParams Leaf.Reads false fs
  name : IsToken .ident decl.name
  typeParams : ∀ f ∈ decl.signature.typeParams, IsTypeParam Leaf.Reads false f
  signature : IsSignatureOf Leaf.Reads false (IsType Leaf.Reads false)
    (.mk [] decl.signature.params decl.signature.results)
  body : ∀ b ∈ decl.body, IsBody b

/-- The lexemes of a function. -/
def printedFunc (decl : FuncDecl) : List Lexeme :=
  funcLexemes false decl.receiver decl.name decl.signature
    (decl.body.map fun b => lexemes b.toList)

theorem spell_printedFunc {decl : FuncDecl}
    (h : ∀ b ∈ decl.body, layoutInner b.toList = b.toList) :
    (printFunc decl).toList = spellLexemes (printedFunc decl) := by
  obtain ⟨receiver, name, sig, body⟩ := decl
  have hparams := spell_typeParams sig.typeParams
  have hsig := spell_signature_verbatim (s := sig) fun f _ => spell_typeLexemes_verbatim f.type
  have hreceiver : spellLexemes (receiverLexemes false receiver) =
      (receiver.elim "" fun fields => "(" ++ renderParams .verbatim fields ++ ") ").toList := by
    cases receiver with
    | none => rfl
    | some fs =>
      have hs := spell_fields_verbatim spell_commaBlank
        fun f (_ : f ∈ fs) => spell_typeLexemes_verbatim f.type
      simp [receiverLexemes, hs, renderParams]
  have hbody : spellLexemes (bodyLexemes (body.map fun b => lexemes b.toList)) =
      (body.elim "" fun body => " " ++ layoutBody body).toList := by
    cases body with
    | none => rfl
    | some b =>
      have hb : layoutInner b.toList = b.toList := h b rfl
      simp [bodyLexemes, layoutBody, spellLexemes_lexemes, hb]
  have hprint : printFunc ⟨receiver, name, sig, body⟩ = "func " ++
      (receiver.elim "" fun fields => "(" ++ renderParams .verbatim fields ++ ") ") ++ name ++
      renderTypeParams .verbatim sig.typeParams ++ renderSignature .verbatim sig ++
      (body.elim "" fun body => " " ++ layoutBody body) := by
    cases receiver <;> cases body <;> rfl
  -- Part by part, the text of each is that of its lexemes.
  rw [hprint]
  simp only [printedFunc, funcLexemes, spellLexemes_cons, spellLexemes_append, hreceiver,
    hparams, hsig, hbody, String.toList_append]
  simp only [Lexeme.ofWord_text, Lexeme.text_layout, List.append_assoc]
  rfl

end Understudy.Source

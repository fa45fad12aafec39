import Understudy.Proofs.RelaidLines

/-!
# The lines of bodies that are laid out

What the layout makes of a body, said of the lines of the body and without the functions that lay
it out: blank lines at both ends are gone (`IsMiddle`), the longest indentation that all other lines
share is replaced by a tab (`IsSharedIndentation`), and blanks at the end of a line are left out
(`LaidOutLine`).

> **What stands between the braces of a body that is laid out** is laid out already, and its lines
> are an empty one and then the lines of the body in the middle, each laid out
> (`layoutBody_inner`).

Blank lines have no part in the shared indentation, though they can begin with spaces and tabs of
their own. And a blank at the end of a line is every `White_Space`, of which only two are
indentation: so a line that is not blank keeps all of its indentation when its end is trimmed
(`isPrefix_trimEnd`).
-/

set_option autoImplicit false

namespace Understudy.Source

open Text

/-! ## The layout of a line -/

/-- Whether there is nothing but blanks on a line. -/
def IsBlankLine (l : List Char) : Prop := ∀ c ∈ l, isBlank c = true

/-- Whether `middle` are the lines from the first to the last that is not blank. -/
structure IsMiddle (ls middle : List (List Char)) : Prop where
  around : ∃ above below, ls = above ++ (middle ++ below) ∧ ∀ l ∈ above ++ below, IsBlankLine l
  first : ∀ l ∈ middle.head?, ¬IsBlankLine l
  last : ∀ l ∈ middle.getLast?, ¬IsBlankLine l

/-- Whether `shared` is the longest run of spaces and tabs that all lines begin with, blank lines
left out of account. -/
structure IsSharedIndentation (ls : List (List Char)) (shared : List Char) : Prop where
  indent : ∀ c ∈ shared, c = ' ' ∨ c = '\t'
  begins : ∀ l ∈ ls, ¬IsBlankLine l → shared <+: l
  longest : ∀ p, (∀ c ∈ p, c = ' ' ∨ c = '\t') → (∀ l ∈ ls, ¬IsBlankLine l → p <+: l) → p <+: shared

/-- A line and what becomes of it: the shared indentation is replaced by a tab, and the blanks at
its end are left out. Of a blank line nothing is left. -/
inductive LaidOutLine (shared : List Char) : List Char → List Char → Prop
  | blank {l : List Char} (h : IsBlankLine l) : LaidOutLine shared l []
  | text {core trailing : List Char} (hlast : ∃ c ∈ core.getLast?, isBlank c = false)
    (ht : ∀ c ∈ trailing, isBlank c = true) :
    LaidOutLine shared (shared ++ (core ++ trailing)) ('\t' :: core)

theorem trimEnd_eq_nil_iff {l : List Char} : trimEnd l = [] ↔ IsBlankLine l := by
  rw [trimEnd, List.reverse_eq_nil_iff, List.dropWhile_eq_nil_iff]
  simp only [List.mem_reverse, IsBlankLine]

/-! ## The longest shared indentation -/

section Longest

variable {p l : List Char} {ls : List (List Char)}

theorem isPrefix_commonStart {a b : List Char} (ha : p <+: a) (hb : p <+: b) :
    p <+: commonStart a b := by
  obtain ⟨a, rfl⟩ := ha
  obtain ⟨b, rfl⟩ := hb
  rw [commonStart_append]
  exact List.prefix_append _ _

/-- What several texts begin with, the longest text that they begin with does. -/
theorem isPrefix_foldl_commonStart {a : List Char} {xs : List (List Char)}
    (h : ∀ x ∈ a :: xs, p <+: x) : p <+: xs.foldl commonStart a := by
  induction xs generalizing a with
  | nil => exact h a List.mem_cons_self
  | cons b xs ih =>
    obtain ⟨ha, hrest⟩ := List.forall_mem_cons.1 h
    obtain ⟨hb, hxs⟩ := List.forall_mem_cons.1 hrest
    exact ih (List.forall_mem_cons.2 ⟨isPrefix_commonStart ha hb, hxs⟩)

/-- The indentation of a line is the longest run of spaces and tabs that it begins with. -/
theorem isPrefix_indentation (hp : ∀ c ∈ p, isIndent c = true) (h : p <+: l) :
    p <+: indentation l := by
  obtain ⟨rest, rfl⟩ := h
  rw [indentation_append hp]
  exact List.prefix_append _ _

theorem isPrefix_sharedIndentation (hp : ∀ c ∈ p, isIndent c = true) (hsome : ∃ l ∈ ls, l ≠ [])
    (h : ∀ l ∈ ls, l ≠ [] → p <+: l) : p <+: sharedIndentation ls := by
  have hall : ∀ x ∈ (ls.filter fun l => !l.isEmpty).map indentation, p <+: x := by
    refine List.forall_mem_map.2 fun l hl => ?_
    obtain ⟨hmem, hne⟩ := List.mem_filter.1 hl
    exact isPrefix_indentation hp (h l hmem (by simpa using hne))
  unfold sharedIndentation
  split
  · next hnil =>
    obtain ⟨l, hmem, hne⟩ := hsome
    have hl : l ∈ ls.filter fun l => !l.isEmpty := List.mem_filter.2 ⟨hmem, by simpa using hne⟩
    rw [List.map_eq_nil_iff.1 hnil] at hl
    cases hl
  · next first rest heq =>
    rw [heq] at hall
    exact isPrefix_foldl_commonStart hall

theorem isIndent_of_mem_sharedIndentation {c : Char} (hsome : ∃ l ∈ ls, l ≠ [])
    (hc : c ∈ sharedIndentation ls) : isIndent c = true := by
  obtain ⟨l, hl, hne⟩ := hsome
  exact isIndent_of_mem ((sharedIndentation_isPrefix hl hne).subset hc)

/-- Trimming the end of a line that is not blank leaves its indentation as it is. -/
theorem isPrefix_trimEnd (hp : ∀ c ∈ p, isIndent c = true) (hl : ¬IsBlankLine l) (h : p <+: l) :
    p <+: trimEnd l := by
  obtain ⟨t, ht, -⟩ := exists_trailing l
  have htrim : trimEnd l <+: l := ⟨t, ht.symm⟩
  rcases List.prefix_or_prefix_of_prefix h htrim with hshort | hlong
  · exact hshort
  · -- Otherwise the last character of the line is both indentation and no blank.
    have hne : trimEnd l ≠ [] := fun hnil => hl (trimEnd_eq_nil_iff.1 hnil)
    have hlast := List.getLast?_eq_some_getLast hne
    have hblank := isBlank_of_isIndent (hp _ (hlong.subset (List.mem_of_getLast? hlast)))
    rw [trimEnd_last l _ hlast] at hblank
    cases hblank

end Longest

/-! ## Whole bodies -/

section Body

variable {body : List Char} {middle : List (List Char)}

/-- The lines that are left of a body, said without trimming them. -/
theorem exists_middle (body : List Char) : ∃ middle, IsMiddle (lines body) middle ∧
    coreLines body = middle.map trimEnd := by
  obtain ⟨above, middle, below, hlines, hempty, hfirst, hlast, hcore⟩ := coreLines_eq body
  exact ⟨middle, ⟨⟨above, below, hlines, fun l hl => trimEnd_eq_nil_iff.1 (hempty l hl)⟩,
    fun l hl => mt trimEnd_eq_nil_iff.2 (hfirst l hl),
    fun l hl => mt trimEnd_eq_nil_iff.2 (hlast l hl)⟩, hcore⟩

/-- All lines that are not blank are in the middle. -/
theorem IsMiddle.mem {ls : List (List Char)} {l : List Char} (h : IsMiddle ls middle) (hl : l ∈ ls)
    (hne : ¬IsBlankLine l) : l ∈ middle := by
  obtain ⟨above, below, rfl, hblank⟩ := h.around
  rcases List.mem_append.1 hl with hl | hl
  · exact absurd (hblank l (List.mem_append_left below hl)) hne
  · rcases List.mem_append.1 hl with hl | hl
    · exact hl
    · exact absurd (hblank l (List.mem_append_right above hl)) hne

/-- **The indentation that is replaced is the longest that the lines of the body share.** -/
theorem isSharedIndentation_coreLines (hsome : ∃ l ∈ lines body, ¬IsBlankLine l) :
    IsSharedIndentation (lines body) (sharedIndentation (coreLines body)) := by
  obtain ⟨middle, hmiddle, hcore⟩ := exists_middle body
  have hmem : ∀ l ∈ lines body, ¬IsBlankLine l → trimEnd l ∈ coreLines body := by
    intro l hl hne
    rw [hcore]
    exact List.mem_map_of_mem (hmiddle.mem hl hne)
  have hcoreSome : ∃ l ∈ coreLines body, l ≠ [] := by
    obtain ⟨l, hl, hne⟩ := hsome
    exact ⟨trimEnd l, hmem l hl hne, mt trimEnd_eq_nil_iff.1 hne⟩
  constructor
  · exact fun c hc => isIndent_iff.1 (isIndent_of_mem_sharedIndentation hcoreSome hc)
  · intro l hl hne
    obtain ⟨t, ht, -⟩ := exists_trailing l
    have hshared := sharedIndentation_isPrefix (hmem l hl hne) (mt trimEnd_eq_nil_iff.1 hne)
    exact (hshared.trans (List.takeWhile_prefix _)).trans ⟨t, ht.symm⟩
  · intro p hp hall
    have hindent : ∀ c ∈ p, isIndent c = true := fun c hc => isIndent_iff.2 (hp c hc)
    refine isPrefix_sharedIndentation hindent hcoreSome fun m hm hne => ?_
    rw [hcore] at hm
    obtain ⟨l, hl, rfl⟩ := List.mem_map.1 hm
    obtain ⟨above, below, hlines, -⟩ := hmiddle.around
    have hblank : ¬IsBlankLine l := mt trimEnd_eq_nil_iff.2 hne
    refine isPrefix_trimEnd hindent hblank (hall l ?_ hblank)
    rw [hlines]
    exact List.mem_append_right above (List.mem_append_left below hl)

/-- **One line of a body.** -/
theorem laidOutLine_indentLine {shared l : List Char}
    (hs : ¬IsBlankLine l → shared <+: indentation (trimEnd l)) :
    LaidOutLine shared l (indentLine shared (trimEnd l)) := by
  by_cases hblank : IsBlankLine l
  · rw [trimEnd_eq_nil_iff.2 hblank]
    exact .blank hblank
  · have hne : trimEnd l ≠ [] := mt trimEnd_eq_nil_iff.1 hblank
    obtain ⟨hcut, -⟩ := indentation_drop (hs hblank)
    have hlast := drop_indent_last (hs hblank) (trimEnd_last l) hne
    obtain ⟨t, ht, htrailing⟩ := exists_trailing l
    rw [indentLine, if_neg (by simpa using hne)]
    generalize (trimEnd l).drop shared.length = core at hcut hlast
    have hline : l = shared ++ (core ++ t) := by rw [← List.append_assoc, ← hcut, ← ht]
    have hcore : ∃ c ∈ core.getLast?, isBlank c = false := by
      have hend := List.getLast?_eq_some_getLast hne
      refine ⟨_, ?_, trimEnd_last l _ hend⟩
      rw [← hlast] at hend
      cases core with
      | nil =>
        -- The tab would be the last character of the line, which is no blank.
        have htab := trimEnd_last l '\t' (hlast ▸ rfl)
        exact absurd htab (by decide)
      | cons c cs => exact hend
    conv =>
      arg 2
      rw [hline]
    exact .text hcore htrailing

/-- The lines of a body that is laid out, made of those of the body. -/
theorem lines_layoutInner (hsome : ∃ l ∈ lines body, ¬IsBlankLine l) : ∃ shared middle out,
    IsSharedIndentation (lines body) shared ∧ IsMiddle (lines body) middle ∧
      List.Forall₂ (LaidOutLine shared) middle out ∧ lines (layoutInner body) = [] :: out := by
  obtain ⟨middle, hmiddle, hcore⟩ := exists_middle body
  have hshared := isSharedIndentation_coreLines hsome
  refine ⟨_, middle, (coreLines body).map (indentLine (sharedIndentation (coreLines body))),
    hshared, hmiddle, ?_, ?_⟩
  · rw [hcore, List.map_map, ← hcore, List.forall₂_map_right_iff, List.forall₂_same]
    intro l hl
    refine laidOutLine_indentLine fun hblank => sharedIndentation_isPrefix ?_ ?_
    · rw [hcore]
      exact List.mem_map_of_mem hl
    · exact mt trimEnd_eq_nil_iff.1 hblank
  · have hne : coreLines body ≠ [] := by
      obtain ⟨l, hl, hblank⟩ := hsome
      rw [hcore]
      exact List.ne_nil_of_mem (List.mem_map_of_mem (hmiddle.mem hl hblank))
    have hjoin := lines_joinLines (isCore_coreLines body).indent.oneLine []
    rw [List.append_nil] at hjoin
    rw [layoutInner_of_lines hne, lines, hjoin, lines, List.append_nil]

/-- **What stands between the braces of a body that is laid out** is laid out already, and its lines
are an empty one and then the lines of the body from the first to the last that is not blank, each
laid out. -/
theorem layoutBody_inner (body : String) : ∃ inner : String,
    layoutBody body = "\x7b" ++ inner ++ "\x7d" ∧ layoutBody inner = "\x7b" ++ inner ++ "\x7d" ∧
      ((∃ l ∈ lines body.toList, ¬IsBlankLine l) → ∃ shared middle out,
        IsSharedIndentation (lines body.toList) shared ∧ IsMiddle (lines body.toList) middle ∧
          List.Forall₂ (LaidOutLine shared) middle out ∧ lines inner.toList = [] :: out) := by
  have hbraces : ∀ cs : List Char,
      String.ofList ('{' :: cs ++ ['}']) = "\x7b" ++ String.ofList cs ++ "\x7d" := by
    intro cs
    rw [← String.toList_inj]
    simp
  refine ⟨String.ofList (layoutInner body.toList), hbraces _, ?_, ?_⟩
  · rw [layoutBody, String.toList_ofList, layoutInner_layoutInner]
    exact hbraces _
  · rw [String.toList_ofList]
    exact lines_layoutInner

/-- A body with blank lines that are indented, a line end of two characters and a wide space. -/
def unevenBody : String := " \n\t  a(\u3000\r\n\n \t\n\t\tb)\r\n  \n"

theorem layoutBody_inner_uneven : (∃ l ∈ lines unevenBody.toList, ¬IsBlankLine l) ∧
    layoutBody unevenBody = "\x7b" ++ "\n\t  a(\n\n\n\t\tb)\n" ++ "\x7d" ∧
    ∃ shared middle out, IsSharedIndentation (lines unevenBody.toList) shared ∧
      IsMiddle (lines unevenBody.toList) middle ∧ List.Forall₂ (LaidOutLine shared) middle out ∧
        lines "\n\t  a(\n\n\n\t\tb)\n".toList = [] :: out := by
  have hsome : ∃ l ∈ lines unevenBody.toList, ¬IsBlankLine l :=
    ⟨['\t', '\t', 'b', ')'], by decide, fun h => absurd (h 'b' (by simp)) (by decide)⟩
  have hbody : layoutBody unevenBody = "\x7b" ++ "\n\t  a(\n\n\n\t\tb)\n" ++ "\x7d" := by decide
  obtain ⟨inner, hinner, -, hlines⟩ := layoutBody_inner unevenBody
  obtain rfl : "\n\t  a(\n\n\n\t\tb)\n" = inner :=
    (String.append_right_inj _).1 ((String.append_left_inj _).1 (hbody.symm.trans hinner))
  exact ⟨hsome, hbody, hlines hsome⟩

end Body

end Understudy.Source

import Understudy.Proofs.PrintedText

/-!
# Bodies are laid out once

> **Laying out a body that is laid out changes nothing** (`layoutInner_layoutInner`).

The lines of a body that is laid out are the same lines again (`coreLines_join`), and the
indentation that they share is the tab before each of them (`sharedIndentation_indent`): what they
shared before is gone, and they shared nothing beyond it.
-/

set_option autoImplicit false

namespace Understudy.Source

open Understudy.Source.Parser Text

/-! ## Shared indentation -/

section CommonStart

variable {a b p : List Char} {xs : List (List Char)}

theorem commonStart_append (p a b : List Char) :
    commonStart (p ++ a) (p ++ b) = p ++ commonStart a b := by
  induction p with
  | nil => rfl
  | cons c p ih => simp [commonStart, ih]

theorem commonStart_isPrefix (a b : List Char) : commonStart a b <+: a ∧ commonStart a b <+: b := by
  induction a generalizing b with
  | nil => simp [commonStart]
  | cons c a ih =>
    cases b with
    | nil => simp [commonStart]
    | cons d b =>
      rw [commonStart]
      split
      · next h =>
        rw [eq_of_beq h]
        exact ⟨List.cons_prefix_cons.2 ⟨rfl, (ih b).1⟩, List.cons_prefix_cons.2 ⟨rfl, (ih b).2⟩⟩
      · exact ⟨List.nil_prefix, List.nil_prefix⟩

/-- The longest text that several texts begin with is one that they begin with. -/
theorem foldl_commonStart_isPrefix (a : List Char) (xs : List (List Char)) :
    ∀ x ∈ a :: xs, xs.foldl commonStart a <+: x := by
  induction xs generalizing a with
  | nil => simp
  | cons b xs ih =>
    have hfirst : xs.foldl commonStart (commonStart a b) <+: commonStart a b :=
      ih _ _ List.mem_cons_self
    refine List.forall_mem_cons.2 ⟨hfirst.trans (commonStart_isPrefix a b).1,
      List.forall_mem_cons.2 ⟨hfirst.trans (commonStart_isPrefix a b).2, fun x hx => ?_⟩⟩
    exact ih _ x (List.mem_cons_of_mem _ hx)

theorem foldl_commonStart_append (p a : List Char) (xs : List (List Char)) :
    (xs.map (p ++ ·)).foldl commonStart (p ++ a) = p ++ xs.foldl commonStart a := by
  induction xs generalizing a with
  | nil => rfl
  | cons b xs ih => rw [List.map_cons, List.foldl_cons, commonStart_append, ih, List.foldl_cons]

end CommonStart

/-- Whether a character is indentation. -/
def isIndent (c : Char) : Bool := c == ' ' || c == '\t'

theorem indentation_append {p cs : List Char} (hp : ∀ c ∈ p, isIndent c = true) :
    indentation (p ++ cs) = p ++ indentation cs := List.takeWhile_append_of_pos hp

theorem isIndent_of_mem {c : Char} {l : List Char} (h : c ∈ indentation l) : isIndent c = true :=
  List.all_eq_true.1 (List.all_takeWhile (p := isIndent) (l := l)) c h

theorem isIndent_iff {c : Char} : isIndent c = true ↔ c = ' ' ∨ c = '\t' := by
  rw [isIndent, Bool.or_eq_true, beq_iff_eq, beq_iff_eq]

theorem isBlank_of_isIndent {c : Char} (h : isIndent c = true) : isBlank c = true := by
  rcases isIndent_iff.1 h with rfl | rfl <;> decide

/-- Indentation that a line begins with, and the rest of the line. -/
theorem indentation_drop {p l : List Char} (h : p <+: indentation l) :
    l = p ++ l.drop p.length ∧ indentation l = p ++ indentation (l.drop p.length) := by
  have hl : l = p ++ l.drop p.length := by
    obtain ⟨rest, hrest⟩ := h.trans (List.takeWhile_prefix _ : indentation l <+: l)
    rw [← hrest, List.drop_left]
  refine ⟨hl, ?_⟩
  have hp : ∀ c ∈ p, isIndent c = true := fun c hc => isIndent_of_mem (h.subset hc)
  conv => lhs; rw [hl]
  exact indentation_append hp

theorem sharedIndentation_isPrefix {ls : List (List Char)} {l : List Char} (hl : l ∈ ls)
    (hne : l ≠ []) : sharedIndentation ls <+: indentation l := by
  have hmem : indentation l ∈ (ls.filter fun l => !l.isEmpty).map indentation :=
    List.mem_map_of_mem (List.mem_filter.2 ⟨hl, by simpa using hne⟩)
  unfold sharedIndentation
  split
  · exact List.nil_prefix
  · next first rest heq =>
    rw [heq] at hmem
    exact foldl_commonStart_isPrefix first rest _ hmem

theorem indentLine_isEmpty (shared l : List Char) : (indentLine shared l).isEmpty = l.isEmpty := by
  unfold indentLine
  split
  · next h => rw [h]; rfl
  · next h => simpa using h

/-- **Lines with one tab instead of the indentation that they share** share the tab. -/
theorem sharedIndentation_indent {ls : List (List Char)} (h : ∃ l ∈ ls, l ≠ []) :
    sharedIndentation (ls.map (indentLine (sharedIndentation ls))) = ['\t'] := by
  generalize hs : sharedIndentation ls = shared
  have hpre : ∀ l ∈ ls.filter fun l => !l.isEmpty, shared <+: indentation l := by
    intro l hl
    obtain ⟨hm, hne⟩ := List.mem_filter.1 hl
    rw [← hs]
    exact sharedIndentation_isPrefix hm (by simpa using hne)
  have hfilter : (ls.map (indentLine shared)).filter (fun l => !l.isEmpty) =
      (ls.filter fun l => !l.isEmpty).map fun l => '\t' :: l.drop shared.length := by
    rw [List.filter_map]
    have hcomp : ((fun l : List Char => !l.isEmpty) ∘ indentLine shared) =
        fun l => !l.isEmpty := by
      funext l
      exact congrArg _ (indentLine_isEmpty shared l)
    rw [hcomp]
    refine List.map_congr_left fun l hl => ?_
    have hne : l.isEmpty = false := by simpa using (List.mem_filter.1 hl).2
    simp [indentLine, hne]
  have hne : (ls.filter fun l => !l.isEmpty) ≠ [] := by
    obtain ⟨l, hl, hne⟩ := h
    exact List.ne_nil_of_mem (List.mem_filter.2 ⟨hl, by simpa using hne⟩)
  unfold sharedIndentation at hs ⊢
  rw [hfilter]
  obtain ⟨first, rest, hcons⟩ := List.exists_cons_of_ne_nil hne
  rw [hcons] at hs hpre ⊢
  -- What the lines share is `shared`, so what they have beyond it has no common start.
  have hdrop : ∀ l ∈ first :: rest, indentation l = shared ++ indentation (l.drop shared.length) :=
    fun l hl => (indentation_drop (hpre l hl)).2
  obtain ⟨hfirst, hrest⟩ := List.forall_mem_cons.1 hdrop
  have hbeyond : (rest.map fun l => indentation (l.drop shared.length)).foldl commonStart
      (indentation (first.drop shared.length)) = [] := by
    have hfold : (rest.map indentation).foldl commonStart (indentation first) = shared := hs
    have hmap : rest.map indentation =
        (rest.map fun l => indentation (l.drop shared.length)).map (shared ++ ·) := by
      rw [List.map_map]
      exact List.map_congr_left hrest
    rw [hmap, hfirst, foldl_commonStart_append] at hfold
    exact List.append_right_eq_self.1 hfold
  have htab : ∀ l : List Char, indentation ('\t' :: l) = ['\t'] ++ indentation l := fun _ => rfl
  have hmap : (rest.map fun l => '\t' :: l.drop shared.length).map indentation =
      (rest.map fun l => indentation (l.drop shared.length)).map (['\t'] ++ ·) := by
    rw [List.map_map, List.map_map]
    exact List.map_congr_left fun l _ => htab _
  show ((rest.map fun l => '\t' :: l.drop shared.length).map indentation).foldl commonStart
    (indentation ('\t' :: first.drop shared.length)) = ['\t']
  rw [hmap, htab, foldl_commonStart_append, hbeyond]
  rfl

/-! ## Lines of a body -/

/-- Whether lines are what is left of a body: without trailing blanks, and with something in the
first and in the last of them. -/
structure IsCore (ls : List (List Char)) : Prop where
  newline : ∀ l ∈ ls, '\n' ∉ l
  trimmed : ∀ l ∈ ls, ∀ c ∈ l.getLast?, isBlank c = false
  first : ls.head? ≠ some []
  last : ls.getLast? ≠ some []

theorem dropWhile_of_head {α : Type} {p : α → Bool} {l : List α}
    (h : ∀ x ∈ l.head?, p x = false) : l.dropWhile p = l := by
  cases l with
  | nil => rfl
  | cons x l => rw [List.dropWhile_cons_of_neg (by simp [h x rfl])]

theorem head_dropWhile {α : Type} (p : α → Bool) (l : List α) :
    ∀ x ∈ (l.dropWhile p).head?, p x = false := by
  intro x hx
  have hnot := List.head?_dropWhile_not p l
  rw [Option.mem_def.1 hx] at hnot
  simpa using hnot

theorem trimEnd_last (l : List Char) : ∀ c ∈ (trimEnd l).getLast?, isBlank c = false := by
  rw [trimEnd, List.getLast?_reverse]
  exact head_dropWhile _ _

theorem trimEnd_eq {l : List Char} (h : ∀ c ∈ l.getLast?, isBlank c = false) : trimEnd l = l := by
  rw [trimEnd, dropWhile_of_head, List.reverse_reverse]
  rwa [List.head?_reverse]

theorem not_mem_lines (cs : List Char) : ∀ l ∈ lines cs, '\n' ∉ l := by
  fun_induction lines cs with
  | case1 => simp
  | case2 cs ih => simpa using ih
  | case3 cs ih => simpa using ih
  | case4 c cs hn _ heq ih => simpa using Ne.symm hn
  | case5 c cs hn _ l ls heq ih =>
    obtain ⟨hl, hls⟩ := List.forall_mem_cons.1 (heq ▸ ih)
    refine List.forall_mem_cons.2 ⟨fun hm => ?_, hls⟩
    rcases List.mem_cons.1 hm with hc | hm
    · exact hn hc.symm
    · exact hl hm

theorem coreLines_isPrefix (body : List Char) :
    coreLines body <+: ((lines body).map trimEnd).dropWhile List.isEmpty := by
  rw [coreLines, ← List.reverse_suffix, List.reverse_reverse]
  exact List.dropWhile_suffix _

theorem isCore_coreLines (body : List Char) : IsCore (coreLines body) := by
  have hpre := coreLines_isPrefix body
  have hmem : ∀ l ∈ coreLines body, ∃ l₀ ∈ lines body, trimEnd l₀ = l := by
    intro l hl
    exact List.mem_map.1 ((List.dropWhile_suffix _).subset (hpre.subset hl))
  refine ⟨fun l hl => ?_, fun l hl => ?_, fun h => ?_, fun h => ?_⟩
  · obtain ⟨l₀, hl₀, rfl⟩ := hmem l hl
    refine fun hn => not_mem_lines body l₀ hl₀ ?_
    rw [trimEnd, List.mem_reverse] at hn
    exact List.mem_reverse.1 ((List.dropWhile_suffix _).subset hn)
  · obtain ⟨l₀, -, rfl⟩ := hmem l hl
    exact trimEnd_last l₀
  · obtain ⟨rest, hrest⟩ := hpre
    obtain ⟨ls, hls⟩ := List.head?_eq_some_iff.1 h
    have hhead := head_dropWhile List.isEmpty ((lines body).map trimEnd) []
    rw [← hrest, hls] at hhead
    exact absurd (hhead rfl) (by decide)
  · rw [coreLines, List.getLast?_reverse] at h
    exact absurd (head_dropWhile _ _ _ h) (by decide)

theorem IsCore.oneLine {ls : List (List Char)} (h : IsCore ls) : ∀ l ∈ ls, OneLine l := by
  refine fun l hl => ⟨h.newline l hl, fun hr => ?_⟩
  exact absurd (h.trimmed l hl _ hr) (by decide)

/-- **The lines of a body that is laid out** are those that it is made of. -/
theorem coreLines_join {ls : List (List Char)} (h : IsCore ls) :
    coreLines ('\n' :: joinLines ls) = ls := by
  have hlines : lines ('\n' :: joinLines ls) = [] :: ls := by
    have hjoin := lines_joinLines h.oneLine []
    rw [List.append_nil] at hjoin
    rw [lines, hjoin, lines, List.append_nil]
  have htrim : ls.map trimEnd = ls := by
    refine (List.map_congr_left fun l hl => ?_).trans (List.map_id ls)
    exact trimEnd_eq (h.trimmed l hl)
  have hbare : ((([] : List Char) :: ls).map trimEnd).dropWhile List.isEmpty = ls := by
    rw [List.map_cons, htrim, List.dropWhile_cons_of_pos (by decide)]
    refine dropWhile_of_head fun l hl => ?_
    cases l with
    | nil => exact absurd hl h.first
    | cons c l => rfl
  rw [coreLines, hlines, hbare, dropWhile_of_head, List.reverse_reverse]
  intro l hl
  rw [List.head?_reverse] at hl
  cases l with
  | nil => exact absurd hl h.last
  | cons c l => rfl

/-- A line has something behind its indentation. -/
theorem drop_indent_last {p l : List Char} (hp : p <+: indentation l)
    (htrim : ∀ c ∈ l.getLast?, isBlank c = false) (hne : l ≠ []) :
    ('\t' :: l.drop p.length).getLast? = l.getLast? := by
  obtain ⟨hl, -⟩ := indentation_drop hp
  generalize l.drop p.length = rest at hl
  cases rest with
  | cons c rest =>
    rw [hl, List.getLast?_append, List.getLast?_cons_cons, List.getLast?_cons]
    rfl
  | nil =>
    -- Otherwise its last character is both indentation and no blank.
    rw [List.append_nil] at hl
    subst hl
    have hlast := List.getLast?_eq_some_getLast hne
    have hindent := isIndent_of_mem (hp.subset (List.mem_of_getLast? hlast))
    have hnot := htrim _ hlast
    rw [isBlank_of_isIndent hindent] at hnot
    cases hnot

theorem IsCore.indent {ls : List (List Char)} (h : IsCore ls) :
    IsCore (ls.map (indentLine (sharedIndentation ls))) := by
  have hempty : ∀ l, indentLine (sharedIndentation ls) l = [] ↔ l = [] := by
    intro l
    rw [← List.isEmpty_iff, indentLine_isEmpty, List.isEmpty_iff]
  have hcons : ∀ l, l ≠ [] → indentLine (sharedIndentation ls) l =
      '\t' :: l.drop (sharedIndentation ls).length := by
    intro l hne
    rw [indentLine, if_neg (by simpa using hne)]
  -- A line is empty after the step exactly if it was before, so the ends of the core stay its ends.
  refine ⟨?_, ?_, fun hf => ?_, fun hl => ?_⟩
  · refine List.forall_mem_map.2 fun l hl hn => ?_
    by_cases hne : l = []
    · rw [(hempty l).2 hne] at hn
      exact absurd hn List.not_mem_nil
    · rw [hcons l hne] at hn
      rcases List.mem_cons.1 hn with hn | hn
      · exact absurd hn (by decide)
      · exact h.newline l hl (List.mem_of_mem_drop hn)
  · refine List.forall_mem_map.2 fun l hl => ?_
    by_cases hne : l = []
    · rw [(hempty l).2 hne]
      simp
    · rw [hcons l hne, drop_indent_last (sharedIndentation_isPrefix hl hne) (h.trimmed l hl) hne]
      exact h.trimmed l hl
  · rw [List.head?_map] at hf
    obtain ⟨l, hl, he⟩ := Option.map_eq_some_iff.1 hf
    rw [(hempty l).1 he] at hl
    exact h.first hl
  · rw [List.getLast?_map] at hl
    obtain ⟨l, hl, he⟩ := Option.map_eq_some_iff.1 hl
    rw [(hempty l).1 he] at hl
    exact h.last hl

theorem layoutInner_of_lines {body : List Char} (hne : coreLines body ≠ []) :
    layoutInner body = '\n' :: joinLines
      ((coreLines body).map (indentLine (sharedIndentation (coreLines body)))) := by
  rw [layoutInner]
  split
  · next h => exact absurd h hne
  · rw [joinLines, List.flatMap_map]

/-- **Laying out a body that is laid out changes nothing.** -/
theorem layoutInner_layoutInner (body : List Char) :
    layoutInner (layoutInner body) = layoutInner body := by
  by_cases hne : coreLines body = []
  · have hbody : layoutInner body = if body.contains '\n' then ['\n'] else [] := by
      rw [layoutInner, hne]
    rw [hbody]
    split <;> decide
  · have hcore := isCore_coreLines body
    generalize hls : coreLines body = ls at hne hcore
    have hjoin := coreLines_join hcore.indent
    have hsome : ∃ l ∈ ls, l ≠ [] := by
      obtain ⟨l, rest, rfl⟩ := List.exists_cons_of_ne_nil hne
      exact ⟨l, List.mem_cons_self, fun h => hcore.first (by rw [h]; rfl)⟩
    have hbody := layoutInner_of_lines (hls.symm ▸ hne)
    rw [hls] at hbody
    rw [hbody, layoutInner_of_lines (by rw [hjoin]; simpa using hne), hjoin,
      sharedIndentation_indent hsome, List.map_map]
    congr 2
    refine List.map_congr_left fun l _ => ?_
    show indentLine ['\t'] (indentLine _ l) = _
    unfold indentLine
    split
    · rfl
    · rfl

end Understudy.Source

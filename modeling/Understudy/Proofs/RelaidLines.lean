import Understudy.Proofs.RelaidText

/-!
# Laid out lines

The two places where the printer works on lines change nothing but blanks around line ends: the lines
of a body that is laid out (`relaid_laidOutLines`), and the entries of a declaration in parentheses,
moved to the right (`relaid_indentLines`).
-/

set_option autoImplicit false

namespace Understudy.Source

open Text

namespace Relaid

variable {x y : List Char}

/-- What holds in the middle of a line holds at its front. -/
theorem atFront (h : Relaid false x y) : Relaid true x y := by
  induction x generalizing y with
  | nil =>
    cases h
    exact .nil
  | cons c x ih =>
    cases h with
    | same hc h => exact .same hc h
    | newline h => exact .newline h
    | trailing hb hn h => exact .trailing hb hn (ih h)

theorem same_append {p : List Char} (hp : '\n' ∉ p) (h : Relaid false x y) :
    Relaid false (p ++ x) (p ++ y) := by
  induction p with
  | nil => exact h
  | cons c p ih =>
    rw [List.mem_cons, not_or] at hp
    exact .same (Ne.symm hp.1) (ih hp.2)

theorem trailing_append {front : Bool} {t : List Char} (ht : ∀ c ∈ t, isBlank c = true ∧ c ≠ '\n')
    (h : Relaid front x ('\n' :: y)) : Relaid front (t ++ x) ('\n' :: y) := by
  induction t with
  | nil => exact h
  | cons c t ih =>
    obtain ⟨hc, ht⟩ := List.forall_mem_cons.1 ht
    exact .trailing hc.1 hc.2 (ih ht)

/-- A line without its indentation and without blanks at its end. -/
theorem line {p q t : List Char} (hp : ∀ c ∈ p, isIndent c = true) (hq : '\n' ∉ q)
    (ht : ∀ c ∈ t, isBlank c = true ∧ c ≠ '\n') (h : Relaid true x y) :
    Relaid true (p ++ (q ++ (t ++ '\n' :: x))) (q ++ '\n' :: y) := by
  induction p with
  | nil => exact (same_append hq (trailing_append ht (.newline h))).atFront
  | cons c p ih =>
    obtain ⟨hc, hp⟩ := List.forall_mem_cons.1 hp
    exact .unindent hc (ih hp)

/-- A line of blanks can be left out. -/
theorem leaveOut_line {r : List Char} (hr : ∀ c ∈ r, isBlank c = true) (h : Relaid true x y) :
    Relaid true (r ++ '\n' :: x) y := by
  induction r with
  | nil => exact .leaveOut isBlank_newline (blankToEnd_newline x) h
  | cons c r ih =>
    obtain ⟨hc, hr'⟩ := List.forall_mem_cons.1 hr
    exact .leaveOut hc (blankToEnd_append hr x) (ih hr')

end Relaid

/-! ## The lines of a text -/

/-- Whether a line of a text stands there as `r`, perhaps with a carriage return at its end. -/
def IsRawLine (r l : List Char) : Prop := '\n' ∉ r ∧ (r = l ∨ r = l ++ ['\r'])

/-- Whether a text with a line end behind it is made of some lines and of an empty one, if its own
last line has ended. Each line comes with the form in which it stands there. -/
structure HasLines (cs : List Char) (zs : List (List Char × List Char)) (tail : List Char) :
    Prop where
  text : cs ++ ['\n'] = joinLines (zs.map Prod.fst) ++ tail
  tail : tail = [] ∨ tail = ['\n']
  lines : lines cs = zs.map Prod.snd
  raw : ∀ z ∈ zs, IsRawLine z.1 z.2

theorem exists_lines (cs : List Char) : ∃ zs tail, HasLines cs zs tail := by
  -- The induction is on what is behind the first characters of a line.
  suffices h : ∀ l, '\n' ∉ l → ∃ zs tail, HasLines (l ++ cs) zs tail from h [] (by simp)
  induction cs with
  | nil =>
    intro l hl
    rw [List.append_nil]
    by_cases hne : l = []
    · subst hne
      exact ⟨[], ['\n'], rfl, Or.inr rfl, rfl, by simp⟩
    · exact ⟨[(l, l)], [], by simp [joinLines], Or.inl rfl, lines_unended hl hne,
        List.forall_mem_singleton.2 ⟨hl, Or.inl rfl⟩⟩
  | cons c cs ih =>
    intro l hl
    by_cases hc : c = '\n'
    · subst hc
      obtain ⟨m, hm, hlm⟩ := lines_line hl cs
      obtain ⟨zs, tail, hcs, htail, hlines, hzs⟩ := ih [] (by simp)
      rw [List.nil_append] at hcs hlines
      refine ⟨(l, m) :: zs, tail, ?_, htail, ?_, List.forall_mem_cons.2 ⟨⟨hl, hlm⟩, hzs⟩⟩
      · rw [List.append_assoc, List.cons_append, hcs]
        simp [joinLines]
      · rw [hm, hlines]
        rfl
    · have hstep := ih (l ++ [c]) (by
        rw [List.mem_append, List.mem_singleton, not_or]
        exact ⟨hl, Ne.symm hc⟩)
      rwa [List.append_assoc] at hstep

section Lines

variable {zs : List (List Char × List Char)} {x y : List Char}

theorem joinLines_cons (l : List Char) (ls : List (List Char)) :
    joinLines (l :: ls) = l ++ '\n' :: joinLines ls := by
  simp [joinLines]

/-- Lines that are relaid one by one. -/
theorem relaid_joinLines {f : List Char × List Char → List Char}
    (hf : ∀ z ∈ zs, ∀ x y, Relaid true x y → Relaid true (z.1 ++ '\n' :: x) (f z ++ '\n' :: y))
    (h : Relaid true x y) :
    Relaid true (joinLines (zs.map Prod.fst) ++ x) (joinLines (zs.map f) ++ y) := by
  induction zs with
  | nil => exact h
  | cons z zs ih =>
    obtain ⟨hz, hf⟩ := List.forall_mem_cons.1 hf
    rw [List.map_cons, List.map_cons, joinLines_cons, joinLines_cons, List.append_assoc,
      List.append_assoc]
    exact hz _ _ (ih hf)

/-- Lines of blanks can be left out. -/
theorem Relaid.leaveOut_lines (hf : ∀ z ∈ zs, ∀ c ∈ z.1, isBlank c = true) (h : Relaid true x y) :
    Relaid true (joinLines (zs.map Prod.fst) ++ x) y := by
  induction zs with
  | nil => exact h
  | cons z zs ih =>
    obtain ⟨hz, hf⟩ := List.forall_mem_cons.1 hf
    rw [List.map_cons, joinLines_cons, List.append_assoc]
    exact .leaveOut_line hz (ih hf)

theorem relaid_tail {tail : List Char} (h : tail = [] ∨ tail = ['\n']) : Relaid true tail [] := by
  rcases h with rfl | rfl
  · exact .nil
  · exact .leaveOut isBlank_newline (blankToEnd_newline []) .nil

end Lines

/-- The blanks at the end of a line. -/
theorem exists_trailing (l : List Char) :
    ∃ t, l = trimEnd l ++ t ∧ ∀ c ∈ t, isBlank c = true := by
  refine ⟨(l.reverse.takeWhile isBlank).reverse, ?_, fun c hc => ?_⟩
  · rw [trimEnd, ← List.reverse_append, List.takeWhile_append_dropWhile, List.reverse_reverse]
  · exact List.mem_takeWhile_imp (List.mem_reverse.1 hc)

theorem IsRawLine.trailing {r l : List Char} (h : IsRawLine r l) :
    ∃ t, r = trimEnd l ++ t ∧ '\n' ∉ trimEnd l ∧ ∀ c ∈ t, isBlank c = true ∧ c ≠ '\n' := by
  obtain ⟨t, hl, ht⟩ := exists_trailing l
  have hblank : ∃ u, r = trimEnd l ++ u ∧ ∀ c ∈ u, isBlank c = true := by
    rcases h.2 with rfl | rfl
    · exact ⟨t, hl, ht⟩
    · refine ⟨t ++ ['\r'], ?_, List.forall_mem_append.2 ⟨ht, ?_⟩⟩
      · rw [← List.append_assoc, ← hl]
      · exact List.forall_mem_singleton.2 (by decide)
  obtain ⟨u, rfl, hu⟩ := hblank
  have hn := h.1
  rw [List.mem_append, not_or] at hn
  refine ⟨u, rfl, hn.1, fun c hc => ⟨hu c hc, ?_⟩⟩
  rintro rfl
  exact hn.2 hc

/-! ## Bodies -/

/-- A line of a body. -/
theorem relaid_indentLine {r l shared x y : List Char} (hr : IsRawLine r l)
    (hs : trimEnd l ≠ [] → shared <+: indentation (trimEnd l)) (h : Relaid true x y) :
    Relaid true (r ++ '\n' :: x) (indentLine shared (trimEnd l) ++ '\n' :: y) := by
  obtain ⟨t, rfl, hn, ht⟩ := hr.trailing
  by_cases hne : trimEnd l = []
  · rw [hne]
    exact .line (p := []) (q := []) (by simp) (by simp) ht h
  · obtain ⟨hl, -⟩ := indentation_drop (hs hne)
    rw [indentLine, if_neg (by simpa using hne)]
    generalize trimEnd l = m at *
    rw [hl] at hn
    rw [List.mem_append, not_or] at hn
    have hindent : ∀ c ∈ shared, isIndent c = true :=
      fun c hc => isIndent_of_mem ((hs hne).subset hc)
    have hline := Relaid.line hindent hn.2 ht h
    rw [← List.append_assoc, ← hl, ← List.append_assoc] at hline
    exact .indent rfl hline

/-- The lines that are left of a body are the lines from the first to the last that are not all
blanks. -/
theorem coreLines_eq (body : List Char) : ∃ pre core post, lines body = pre ++ (core ++ post) ∧
    (∀ l ∈ pre ++ post, trimEnd l = []) ∧ (∀ l ∈ core.head?, trimEnd l ≠ []) ∧
    (∀ l ∈ core.getLast?, trimEnd l ≠ []) ∧ coreLines body = core.map trimEnd := by
  obtain ⟨pre, core, post, hlines, hpre, hpost, hfirst, hlast⟩ :=
    exists_core (fun l : List Char => (trimEnd l).isEmpty) (lines body)
  have hempty : ∀ {ls : List (List Char)}, (∀ l ∈ ls, (trimEnd l).isEmpty = true) →
      ∀ l ∈ ls.map trimEnd, l.isEmpty = true :=
    fun hls => List.forall_mem_map.2 hls
  refine ⟨pre, core, post, hlines, ?_, ?_, ?_, ?_⟩
  · exact List.forall_mem_append.2 ⟨fun l hl => List.isEmpty_iff.1 (hpre l hl),
      fun l hl => List.isEmpty_iff.1 (hpost l hl)⟩
  · exact fun l hl => List.isEmpty_eq_false_iff.1 (hfirst l hl)
  · exact fun l hl => List.isEmpty_eq_false_iff.1 (hlast l hl)
  rw [coreLines, hlines, List.map_append, List.map_append,
    List.dropWhile_append_of_pos (hempty hpre)]
  -- What is dropped at the front ends where the core begins, and the same from the other end.
  cases core with
  | nil =>
    rw [List.map_nil, List.nil_append, List.dropWhile_eq_nil_iff.2 (hempty hpost)]
    rfl
  | cons l core =>
    have hl : (trimEnd l).isEmpty = false := hfirst l rfl
    rw [List.map_cons, List.cons_append, List.dropWhile_cons_of_neg (by rw [hl]; decide),
      ← List.cons_append, List.reverse_append, List.dropWhile_append_of_pos, dropWhile_of_head,
      List.reverse_reverse]
    · intro m hm
      rw [List.head?_reverse] at hm
      have hm : m ∈ ((l :: core).map trimEnd).getLast? := hm
      rw [List.getLast?_map] at hm
      obtain ⟨w, hw, rfl⟩ := Option.map_eq_some_iff.1 hm
      exact hlast w hw
    · intro m hm
      exact hempty hpost m (List.mem_reverse.1 hm)

/-- The lines that are left of a body, each with the form in which it stands there. -/
theorem exists_coreLines {zs : List (List Char × List Char)} {body : List Char}
    (h : lines body = zs.map Prod.snd) : ∃ pre core post, zs = pre ++ (core ++ post) ∧
      (∀ z ∈ pre ++ post, trimEnd z.2 = []) ∧
      coreLines body = core.map fun z => trimEnd z.2 := by
  obtain ⟨pre, core, post, hlines, hempty, -, -, hcore⟩ := coreLines_eq body
  obtain ⟨pre, rest, rfl, rfl, hrest⟩ := List.map_eq_append_iff.1 (h.symm.trans hlines)
  obtain ⟨core, post, rfl, rfl, rfl⟩ := List.map_eq_append_iff.1 hrest
  rw [← List.map_append] at hempty
  refine ⟨pre, core, post, rfl, List.forall_mem_map.1 hempty, ?_⟩
  rw [hcore, List.map_map]
  rfl

/-- The lines of a body that is laid out, with a line end before them. -/
def laidOutLines (body : List Char) : List Char :=
  '\n' :: joinLines ((coreLines body).map (indentLine (sharedIndentation (coreLines body))))

/-- **A body that is laid out** is the body with other blanks around its line ends. -/
theorem relaid_laidOutLines (body : List Char) :
    Relaid false ('\n' :: (body ++ ['\n'])) (laidOutLines body) := by
  obtain ⟨zs, tail, h⟩ := exists_lines body
  obtain ⟨pre, core, post, rfl, hempty, hcore⟩ := exists_coreLines h.lines
  have hblank : ∀ z ∈ pre ++ post, ∀ c ∈ z.1, isBlank c = true := by
    intro z hz c hc
    have hm : z ∈ pre ++ (core ++ post) := by
      rw [List.mem_append] at hz ⊢
      exact hz.imp_right (List.mem_append_right core)
    obtain ⟨t, hr, -, ht⟩ := (h.raw z hm).trailing
    rw [hempty z hz, List.nil_append] at hr
    rw [hr] at hc
    exact (ht c hc).1
  obtain ⟨hpre, hpost⟩ := List.forall_mem_append.1 hblank
  have hlines : ∀ z ∈ core, ∀ x y, Relaid true x y → Relaid true (z.1 ++ '\n' :: x)
      (indentLine (sharedIndentation (coreLines body)) (trimEnd z.2) ++ '\n' :: y) := by
    intro z hz x y hxy
    refine relaid_indentLine (h.raw z ?_) (fun hl => sharedIndentation_isPrefix ?_ hl) hxy
    · exact List.mem_append_right pre (List.mem_append_left post hz)
    · rw [hcore]
      exact List.mem_map_of_mem hz
  have hjoin : ∀ as bs : List (List Char), joinLines (as ++ bs) = joinLines as ++ joinLines bs :=
    fun _ _ => List.flatMap_append
  have hend := Relaid.leaveOut_lines hpost (relaid_tail h.tail)
  have hall := Relaid.leaveOut_lines hpre (relaid_joinLines hlines hend)
  rw [← List.append_assoc (joinLines (core.map Prod.fst)), ← hjoin, ← List.append_assoc, ← hjoin,
    ← List.map_append, ← List.map_append, ← h.text, List.append_nil] at hall
  refine .newline ?_
  rwa [hcore, List.map_map, ← hcore]

/-- Nothing but the line end is left out, if there are no lines. -/
theorem layoutInner_eq (body : List Char) :
    layoutInner body = laidOutLines body ∨ (layoutInner body = [] ∧ laidOutLines body = ['\n']) := by
  by_cases hne : coreLines body = []
  · rw [layoutInner, laidOutLines, hne]
    by_cases hn : body.contains '\n' = true
    · exact Or.inl (if_pos hn)
    · exact Or.inr ⟨if_neg hn, rfl⟩
  · exact Or.inl (layoutInner_of_lines hne)

theorem laidOutLines_last (body : List Char) : (laidOutLines body).getLast? = some '\n' := by
  rcases layoutInner_eq body with h | ⟨-, h⟩
  · rcases layoutInner_last body with hnil | hlast
    · rw [h] at hnil
      cases hnil
    · rwa [h] at hlast
  · rw [h]
    rfl

/-! ## Entries -/

/-- **An entry moved to the right** is the entry with other blanks around its line ends. -/
theorem relaid_indentLines (s : String) {x y : List Char} (hxy : Relaid true x y) :
    Relaid true (s.toList ++ '\n' :: x) ((indentLines s).toList ++ '\n' :: y) := by
  obtain ⟨zs, tail, h⟩ := exists_lines s.toList
  have htab : ∀ z ∈ zs, ∀ x y, Relaid true x y → Relaid true (z.1 ++ '\n' :: x)
      ((if z.2.isEmpty then "" else "\t" ++ String.ofList z.2).toList ++ '\n' :: y) := by
    intro z hz x y hxy
    obtain ⟨hn, hr⟩ := h.raw z hz
    have hraw : ∃ t, z.1 = z.2 ++ t ∧ ∀ c ∈ t, isBlank c = true ∧ c ≠ '\n' := by
      rcases hr with hr | hr
      · exact ⟨[], by rw [hr, List.append_nil], by simp⟩
      · exact ⟨['\r'], hr, List.forall_mem_singleton.2 (by decide)⟩
    obtain ⟨t, hz₁, ht⟩ := hraw
    rw [hz₁, List.mem_append, not_or] at hn
    have hline := Relaid.line (p := []) (by simp) hn.1 ht hxy
    rw [List.nil_append, ← List.append_assoc, ← hz₁] at hline
    split
    · next hempty =>
      rw [List.isEmpty_iff.1 hempty] at hline
      exact hline
    · have htext : ("\t" ++ String.ofList z.2).toList = '\t' :: z.2 := by simp
      rw [htext]
      exact .indent rfl hline
  have htail : Relaid true (tail ++ x) y := by
    rcases h.tail with htail | htail
    · rwa [htail]
    · rw [htail]
      exact .leaveOut isBlank_newline (blankToEnd_newline x) hxy
  have hall := relaid_joinLines htab htail
  rw [← List.append_assoc, ← h.text, List.append_assoc] at hall
  have hindent : (indentLines s).toList = List.intercalate ['\n'] (zs.map fun z =>
      (if z.2.isEmpty then "" else "\t" ++ String.ofList z.2).toList) := by
    rw [indentLines, h.lines, String.toList_intercalate, List.map_map, List.map_map]
    rfl
  -- The lines are joined by line ends, so the last one has none of its own.
  rcases List.eq_nil_or_concat zs with rfl | ⟨ws, w, rfl⟩
  · -- Without lines there is only the line end.
    rw [hindent]
    have hnil : s.toList = [] := by
      have htext := congrArg List.length h.text
      rcases h.tail with ht | ht
      · simp [ht, joinLines] at htext
      · simpa [ht, joinLines] using htext
    rw [hnil]
    exact .newline hxy
  · rw [hindent, List.concat_eq_append, List.map_append, List.map_singleton, intercalate_joinLines]
    rw [List.concat_eq_append, List.map_append] at hall
    simpa [joinLines] using hall

end Understudy.Source

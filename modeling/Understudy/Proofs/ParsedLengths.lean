import Understudy.Proofs.FileSegments
import Understudy.Proofs.TokenSpans

/-!
# Lengths of parsed files

The length of an array is kept as the text between its brackets, without the blanks around it, and
it is read again when the array is written. The tokens between the brackets have all their brackets
closed, but the lexemes of the text need not be these tokens: a comment to the end of the line that
has lost its line end goes on over the bracket that is written behind it. Where it does not,

> **the brackets in the length of an array are closed** (`parse_lengths`).

What has to be shown for this is that no lexeme but such a comment is changed when blanks are taken
off (`lexemes_trim`).
-/

set_option autoImplicit false

namespace Understudy.Source

open Text

/-! ## Blanks -/

/-- Whether a lexeme is a single blank. -/
def Lexeme.isBlank : Lexeme → Bool
  | .layout [c] => Text.isBlank c
  | _ => false

/-- Every list is a part that does not end with an element of a kind, and such elements. -/
theorem exists_stem {α : Type} (p : α → Bool) (xs : List α) :
    ∃ stem post, xs = stem ++ post ∧ (∀ x ∈ post, p x = true) ∧
      ∀ x ∈ stem.getLast?, p x = false := by
  refine ⟨(xs.reverse.dropWhile p).reverse, (xs.reverse.takeWhile p).reverse, ?_, fun x hx => ?_,
    fun x hx => ?_⟩
  · rw [← List.reverse_append, List.takeWhile_append_dropWhile, List.reverse_reverse]
  · exact List.mem_takeWhile_imp (List.mem_reverse.1 hx)
  · have hnot := List.head?_dropWhile_not p xs.reverse
    rw [List.getLast?_reverse] at hx
    rw [Option.mem_def.1 hx] at hnot
    simpa using hnot

/-- Every list is a core, and elements of a kind before and behind it. -/
theorem exists_core {α : Type} (p : α → Bool) (xs : List α) :
    ∃ pre core post, xs = pre ++ (core ++ post) ∧ (∀ x ∈ pre, p x = true) ∧
      (∀ x ∈ post, p x = true) ∧ (∀ x ∈ core.head?, p x = false) ∧
      ∀ x ∈ core.getLast?, p x = false := by
  obtain ⟨core, post, hcore, hpost, hlast⟩ := exists_stem p (xs.dropWhile p)
  refine ⟨xs.takeWhile p, core, post, ?_, fun x => List.mem_takeWhile_imp, hpost, fun x hx => ?_,
    hlast⟩
  · rw [← hcore, List.takeWhile_append_dropWhile]
  · -- The core begins where the rest begins.
    have hnot := List.head?_dropWhile_not p xs
    rw [hcore, List.head?_append, Option.mem_def.1 hx] at hnot
    simpa using hnot

theorem trim_append {a b c : List Char} (ha : ∀ x ∈ a, isBlank x = true)
    (hc : ∀ x ∈ c, isBlank x = true) (hfirst : ∀ x ∈ b.head?, isBlank x = false)
    (hlast : ∀ x ∈ b.getLast?, isBlank x = false) : trim (a ++ (b ++ c)) = b := by
  have hdrop : ∀ l : List Char, (∀ x ∈ l.head?, isBlank x = false) → l.dropWhile isBlank = l := by
    intro l hl
    cases l with
    | nil => rfl
    | cons x l => rw [List.dropWhile_cons_of_neg (by simp [hl x rfl])]
  rw [trim, trimStart, List.dropWhile_append_of_pos ha, trimEnd]
  cases b with
  | nil =>
    have hnil : c.dropWhile isBlank = [] := List.dropWhile_eq_nil_iff.2 hc
    rw [List.nil_append, hnil]
    rfl
  | cons x b =>
    rw [hdrop (x :: b ++ c) hfirst, List.reverse_append,
      List.dropWhile_append_of_pos fun y hy => hc y (List.mem_reverse.1 hy), hdrop,
      List.reverse_reverse]
    rwa [List.head?_reverse]

theorem isBlank_of_graphic {c : Char} (h : 0x20 < c.toNat ∧ c.toNat < 0x7f) :
    isBlank c = false := by
  have hcontrols : ¬ c.toNat ≤ 0xd := by omega
  have hspace : ¬ c.toNat ≤ 0x20 := by omega
  have hother : c.toNat < 0x85 := by omega
  simp [isBlank, blanks, Ranges.has, hcontrols, hspace, hother]

theorem operators_not_blank :
    ∀ p ∈ Kind.operators, p.1.toList ≠ [] ∧ ∀ c ∈ p.1.toList, isBlank c = false := by
  have hall : ∀ p ∈ Kind.operators, p.1.toList ≠ [] ∧
      p.1.toList.all (fun c => !isBlank c) = true := by decide
  intro p hp
  obtain ⟨hne, hchars⟩ := hall p hp
  exact ⟨hne, fun c hc => by simpa using List.all_eq_true.1 hchars c hc⟩

section Next

variable {c : Char} {cs text rest : List Char} {l : Lexeme}

/-- A blank is layout, or it begins no lexeme of a source text. -/
theorem layout_or_bad (hc : isBlank c = true) :
    (c == '\n' || isLayoutBlank c) = true ∨ ∀ cs, (next c cs).1.isBad = true := by
  have hne : ∀ {d : Char}, isBlank d = false → c ≠ d := by
    rintro d hd rfl
    rw [hc] at hd
    cases hd
  by_cases hb : (c == '\n' || isLayoutBlank c) = true
  · exact Or.inl hb
  · refine Or.inr fun cs => ?_
    have hcontinues : continuesWord c = false :=
      Bool.eq_false_iff.2 fun h => hne (isBlank_of_continuesWord h) rfl
    have hword : startsWord c = false := by
      rw [continuesWord, Bool.or_eq_false_iff] at hcontinues
      exact hcontinues.1
    have hdigit : c.isDigit = false :=
      Bool.eq_false_iff.2 fun h => hne (isBlank_of_isNumberChar (isNumberChar_of_isDigit h)) rfl
    have hquote : c ∉ ['"', '\'', '\x60'] := by
      simp only [List.mem_cons, List.not_mem_nil, or_false, not_or]
      exact ⟨hne (by decide), hne (by decide), hne (by decide)⟩
    have hpair : ∀ d, cs.head? = some d → IsSignPair c d := fun d _ =>
      ⟨fun h => absurd h (hne (by decide)), fun h => absurd h (hne (by decide))⟩
    -- So it could only begin a sign, and no sign begins with a blank.
    have hnext : next c cs = operatorOrBad c cs :=
      (IsFirst.sign (by simpa using hb) hword hdigit hquote hpair Prod.mk.eta.symm).next_eq
    rw [hnext, operatorOrBad]
    cases ho : operator? (c :: cs) with
    | none => rfl
    | some p =>
      obtain ⟨q, hq, -, happ⟩ := operator?_eq_some ho
      obtain ⟨hnil, hblank⟩ := operators_not_blank q hq
      obtain ⟨d, ds, hd⟩ := List.exists_cons_of_ne_nil hnil
      rw [hd, List.cons_append] at happ
      refine absurd (List.cons.inj happ).1.symm (hne (hblank d ?_))
      rw [hd]
      exact List.mem_cons_self

/-- What begins with a blank is the blank, or it is no lexeme of a source text. -/
theorem next_blank (hc : isBlank c = true) (cs : List Char) :
    (next c cs).1 = .layout [c] ∨ (next c cs).1.isBad = true := by
  refine (layout_or_bad hc).imp (fun hb => ?_) fun h => h cs
  rw [(IsFirst.blank hb rfl).next_eq]

/-- Layout is one character, a comment to the end of the line, or a comment with an end mark. -/
theorem next_layout (h : next c cs = (.layout text, rest)) :
    text = [c] ∨ ['/', '/'] <+: text ∨ text.getLast? = some '/' := by
  cases isFirst_of_next h rfl with
  | blank _ h => exact Or.inl (Lexeme.layout.inj (Prod.mk.inj h).1).symm
  | word _ h | number _ h | point _ _ _ h => cases h
  | line _ _ h =>
    rw [← Lexeme.layout.inj (Prod.mk.inj h).1]
    exact Or.inr (Or.inl (List.prefix_append ['/', '/'] _))
  | enclosed e hm _ hl =>
    cases e with
    | comment =>
      cases hl
      exact Or.inr (Or.inr hm.last)
    | raw | string | rune => cases hl
  | sign _ _ _ _ _ h => exact absurd h operatorOrBad_ne_layout

namespace Lexeme.StandsBefore

/-- A lexeme that is no blank begins with none. -/
theorem first (h : l.StandsBefore rest) (hg : l.isBad = false) (hb : l.isBlank = false) :
    ∀ x ∈ l.text.head?, Text.isBlank x = false := by
  obtain ⟨c, cs, ht, hn⟩ := h
  have hne := next_text_ne_nil c cs
  rw [hn] at hne
  intro x hx
  have hxc : x = c := by
    have hhead := congrArg List.head? ht
    rw [List.head?_append, Option.mem_def.1 hx] at hhead
    exact Option.some.inj hhead
  subst hxc
  refine Bool.eq_false_iff.2 fun hblank => ?_
  rcases next_blank hblank cs with hl | hl
  · rw [hn] at hl
    have hl : l = .layout [x] := hl
    rw [hl, Lexeme.isBlank, hblank] at hb
    cases hb
  · rw [hn, hg] at hl
    cases hl

/-- A lexeme that is no blank ends with none, unless it is a comment to the end of the line. -/
theorem final (h : l.StandsBefore rest) (hg : l.isBad = false) (hb : l.isBlank = false)
    (hline : ∀ text, l = .layout text → ¬ ['/', '/'] <+: text) :
    ∀ x ∈ l.text.getLast?, Text.isBlank x = false := by
  obtain ⟨c, cs, -, hn⟩ := h
  intro x hx
  cases l with
  | bad text => cases hg
  | layout text =>
    have hx : text.getLast? = some x := hx
    rcases next_layout hn with rfl | hpre | hlast
    · obtain rfl : c = x := Option.some.inj hx
      exact hb
    · exact absurd hpre (hline text rfl)
    · rw [hlast] at hx
      rw [← Option.some.inj hx]
      decide
  | token kind text =>
    have hx : text.getLast? = some x := hx
    have hmem := List.mem_of_getLast? hx
    rcases next_token hn with ⟨hc, hw⟩ | ⟨-, ht⟩ | ⟨-, q, hq, ht⟩ | ⟨p, hp, -, ht⟩
    · exact isBlank_of_continuesWord (mem_of_isWord (word_text hc hw) x (by simpa using hmem))
    · exact isBlank_of_isNumberChar (ht x hmem)
    · have hgraphic : ∀ q ∈ ['"', '\'', '\x60'], 0x20 < q.toNat ∧ q.toNat < 0x7f := by simp
      rw [ht] at hx
      rw [← Option.some.inj hx]
      exact isBlank_of_graphic (hgraphic q hq)
    · rw [ht] at hmem
      exact (operators_not_blank p hp).2 x hmem

end Lexeme.StandsBefore

end Next

/-! ## Taking blanks off -/

theorem depthAfter_filter (d : Nat) (ls : List Lexeme) :
    depthAfter d (ls.filter fun l => !l.isBlank) = depthAfter d ls := by
  have htoken : ∀ (kind : Kind) (text : List Char) (ls : List Lexeme),
      (Lexeme.token kind text :: ls).filter (fun l => !l.isBlank) =
        .token kind text :: ls.filter fun l => !l.isBlank := by
    intro kind text ls
    rw [List.filter_cons_of_pos rfl]
  fun_induction depthAfter d ls with
  | case1 => rfl
  | case2 d kind text ls ho ih => rw [htoken, depthAfter_opens ho, ih]
  | case3 kind text ls ho hc => simp [htoken, depthAfter, ho, hc]
  | case4 kind text ls ho hc d ih => rw [htoken, depthAfter_closes ho hc, ih]
  | case5 d kind text ls ho hc ih => rw [htoken, depthAfter_plain ho hc, ih]
  | case6 d l ls hl ih =>
    rw [List.filter_cons]
    split
    · rw [depthAfter_other hl, ih]
    · exact ih

theorem depthAfter_layout {gap : List Lexeme} (h : ∀ l ∈ gap, l.isLayout = true) (d : Nat)
    (ls : List Lexeme) : depthAfter d (gap ++ ls) = depthAfter d ls := by
  induction gap with
  | nil => rfl
  | cons l gap ih =>
    obtain ⟨hl, hrest⟩ := List.forall_mem_cons.1 h
    rw [List.cons_append, depthAfter_other, ih hrest]
    rintro kind text rfl
    cases hl

/-- Blanks around some lexemes change none of their brackets. -/
theorem balanced_core {pre core post : List Lexeme} (hpre : ∀ l ∈ pre, l.isBlank = true)
    (hpost : ∀ l ∈ post, l.isBlank = true) (h : Balanced (pre ++ (core ++ post))) :
    Balanced core := by
  have hnone : ∀ ls : List Lexeme, (∀ l ∈ ls, l.isBlank = true) →
      ls.filter (fun l => !l.isBlank) = [] :=
    fun ls hl => List.filter_eq_nil_iff.2 fun l hm => by simp [hl l hm]
  rw [Balanced, ← depthAfter_filter, List.filter_append, List.filter_append, hnone pre hpre,
    hnone post hpost, List.nil_append, List.append_nil, depthAfter_filter] at h
  exact h

theorem isBlank_spell {ls : List Lexeme} (h : ∀ l ∈ ls, l.isBlank = true) :
    ∀ c ∈ spellLexemes ls, Text.isBlank c = true := by
  intro c hc
  obtain ⟨l, hl, hc⟩ := List.mem_flatMap.1 hc
  have hl := h l hl
  unfold Lexeme.isBlank at hl
  split at hl
  · rwa [List.mem_singleton.1 hc]
  · cases hl

/-- Lexemes in front of a text stand wherever the text goes on at a boundary. -/
theorem StandBefore.within {ls : List Lexeme} {u old : List Char} {d : Char}
    (h : StandBefore ls (u ++ old)) (hg : ∀ l ∈ ls, l.isBad = false) (hu : u ≠ [])
    (hd : isBoundary d = true) (new : List Char) : StandBefore ls (u ++ d :: new) := by
  induction ls with
  | nil => trivial
  | cons l ls ih =>
    obtain ⟨hl, hrest⟩ := List.forall_mem_cons.1 hg
    refine ⟨?_, ih h.2 hrest⟩
    have hstand := h.1
    rw [← List.append_assoc] at hstand ⊢
    refine hstand.before_boundary hl (fun hnil => ?_) hd new
    exact absurd (List.append_eq_nil_iff.1 hnil).2 hu

/-- The last lexeme of a text without blanks at its end, where no byte order mark follows: it is
settled, or it is a comment to the end of the line. -/
theorem settled_or_comment {l : Lexeme} {rest : List Char} (h : l.StandsBefore rest)
    (hg : l.isBad = false) (hrest : rest.head? ≠ some '\ufeff') :
    l.Settled ∨ ∃ u, l = .layout ('/' :: '/' :: u) := by
  cases l with
  | bad text => cases hg
  | layout text =>
    by_cases hline : ['/', '/'] <+: text
    · obtain ⟨u, rfl⟩ := hline
      exact Or.inr ⟨u, rfl⟩
    · exact Or.inl hline
  | token kind text =>
    refine Or.inl fun c cs hc hw => ?_
    obtain ⟨e, es, ht, hn⟩ := h
    have ht : text ++ rest = e :: es := ht
    rw [hc, List.cons_append] at ht
    obtain ⟨rfl, -⟩ := List.cons.inj ht
    rw [next_word _ hw] at hn
    obtain ⟨hlex, hr⟩ := Prod.mk.inj hn
    obtain ⟨hk, htext⟩ := Lexeme.token.inj hlex
    rw [hr, htext, if_neg (by simpa using hrest)] at hk
    exact hk.symm

/-- A comment to the end of the line ends at a line end or at the end of the text. -/
theorem lineComment_ends {u rest : List Char}
    (h : (Lexeme.layout ('/' :: '/' :: u)).StandsBefore rest) :
    '\n' ∉ u ∧ (rest = [] ∨ rest.head? = some '\n') := by
  obtain ⟨c, cs, ht, hn⟩ := h
  obtain ⟨rfl, rfl⟩ := List.cons.inj ht
  have hu : (u ++ rest).takeWhile (· != '\n') = u :=
    (List.cons.inj (List.cons.inj (Lexeme.layout.inj (Prod.mk.inj hn).1)).2).2
  have hrest : (u ++ rest).dropWhile (· != '\n') = rest := (Prod.mk.inj hn).2
  constructor
  · intro hm
    rw [← hu] at hm
    exact absurd (List.mem_takeWhile_imp hm) (by decide)
  · have hhead := List.head?_dropWhile_not (· != '\n') (u ++ rest)
    rw [hrest] at hhead
    cases rest with
    | nil => exact Or.inl rfl
    | cons d rest => simpa using hhead

theorem lineComment_stands {u rest : List Char} (hu : '\n' ∉ u)
    (hr : rest = [] ∨ rest.head? = some '\n') :
    (Lexeme.layout ('/' :: '/' :: u)).StandsBefore rest := by
  have hin : ∀ c ∈ u, (c != '\n') = true := by
    intro c hc
    rw [bne_iff_ne]
    rintro rfl
    exact hu hc
  have hout : ∀ c, rest.head? = some c → (c != '\n') = false := by
    intro c hc
    rcases hr with rfl | hr
    · cases hc
    · rw [Option.some.inj (hc.symm.trans hr)]
      rfl
  obtain ⟨htake, hdrop⟩ := takeWhile_append_stop hin hout
  refine ⟨'/', '/' :: (u ++ rest), rfl, ?_⟩
  show (Lexeme.layout ('/' :: '/' :: (u ++ rest).takeWhile (· != '\n')),
    (u ++ rest).dropWhile (· != '\n')) = _
  rw [htake, hdrop]

theorem spell_head {ls : List Lexeme} {rest : List Char} (h : StandBefore ls rest)
    (hg : ∀ l ∈ ls, l.isBad = false) (hfirst : ∀ l ∈ ls.head?, l.isBlank = false) :
    ∀ x ∈ (spellLexemes ls).head?, Text.isBlank x = false := by
  intro x hx
  cases ls with
  | nil => cases hx
  | cons l ls =>
    obtain ⟨c, cs, hc⟩ := List.exists_cons_of_ne_nil h.1.text_ne_nil
    refine h.1.first (hg l List.mem_cons_self) (hfirst l rfl) x ?_
    rw [spellLexemes_cons, hc] at hx
    rw [hc]
    exact hx

/-- A comment at the end of a text without blanks at its end takes up the bracket behind it. -/
theorem lexemes_comment {init : List Lexeme} {u v rest : List Char}
    (h : StandBefore (init ++ [Lexeme.layout ('/' :: '/' :: (u ++ v))]) rest)
    (hg : ∀ l ∈ init, l.isBad = false) :
    lexemes (spellLexemes init ++ '/' :: '/' :: (u ++ [']'])) =
      init ++ [Lexeme.layout ('/' :: '/' :: (u ++ [']']))] := by
  obtain ⟨hinit, hlast, -⟩ := standBefore_append.1 h
  have hline : '\n' ∉ u := fun hm => (lineComment_ends hlast).1 (List.mem_append_left v hm)
  have hcomment : StandBefore [.layout ('/' :: '/' :: (u ++ [']']))] [] :=
    ⟨lineComment_stands (u := u ++ [']']) (by simp [hline]) (Or.inl rfl), trivial⟩
  have hstand : StandBefore init (('/' :: '/' :: u) ++ [']']) := by
    have hbefore : StandBefore init (('/' :: '/' :: u) ++ (v ++ rest)) := by simpa using hinit
    exact hbefore.within hg (by simp) rfl []
  have hall := lexemes_spell (standBefore_append.2 ⟨by simpa using hstand, hcomment⟩)
  simpa using hall

/-- The bracket behind a text that ends with a comment to the end of the line is no token. -/
theorem not_stand_of_comment {pre post : List Char} {init : List Lexeme} {u rest : List Char}
    (h : StandBefore (init ++ [Lexeme.layout ('/' :: '/' :: u)]) rest)
    (hg : ∀ l ∈ init, l.isBad = false) (hpre : ∀ x ∈ pre, Text.isBlank x = true)
    (hpost : ∀ x ∈ post, Text.isBlank x = true)
    (hhead : ∀ x ∈ (spellLexemes (init ++ [Lexeme.layout ('/' :: '/' :: u)])).head?,
      Text.isBlank x = false) :
    ¬ StandBefore (lexemes (trim (pre ++
      (spellLexemes (init ++ [Lexeme.layout ('/' :: '/' :: u)]) ++ post)))) [']'] := by
  obtain ⟨stem, v, rfl, hv, hstem⟩ := exists_stem Text.isBlank u
  have hlast : ∀ x ∈ ('/' :: '/' :: stem).getLast?, Text.isBlank x = false := by
    intro x hx
    cases hs : stem.getLast? with
    | none =>
      obtain rfl : '/' = x := by simpa [List.getLast?_cons, hs] using hx
      decide
    | some y =>
      obtain rfl : y = x := by simpa [List.getLast?_cons, hs] using hx
      exact hstem y hs
  have hspell : spellLexemes (init ++ [.layout ('/' :: '/' :: (stem ++ v))]) ++ post =
      (spellLexemes init ++ '/' :: '/' :: stem) ++ (v ++ post) := by
    simp
  have htrim : trim (pre ++ (spellLexemes (init ++ [.layout ('/' :: '/' :: (stem ++ v))]) ++
      post)) = spellLexemes init ++ '/' :: '/' :: stem := by
    rw [hspell]
    refine trim_append hpre (List.forall_mem_append.2 ⟨hv, hpost⟩) (fun x hx => hhead x ?_)
      fun x hx => hlast x ?_
    · cases hi : spellLexemes init <;> simpa [hi] using hx
    · simpa [List.getLast?_append] using hx
  intro hl
  have hcomment := lexemes_comment h hg
  have hbracket := lexemes_spell_append hl
  have hfree : StandBefore [.token .rbrack [']']] [] :=
    ⟨Lexeme.standsBefore_of_isFree rfl _, trivial⟩
  have hclose : lexemes [']'] = [.token .rbrack [']']] := lexemes_spell hfree
  rw [spellLexemes_lexemes, htrim, List.append_assoc, hclose] at hbracket
  -- With the bracket behind it the text ends with the comment, and not with a bracket.
  have hends := congrArg List.getLast? (hcomment.symm.trans hbracket)
  rw [List.getLast?_concat, List.getLast?_concat] at hends
  cases hends

/-- **Taking blanks off changes no lexeme**, unless a comment goes on over the bracket that is then
written behind the text. -/
theorem lexemes_trim {ls : List Lexeme} {old : List Char} (h : StandBefore ls old)
    (hg : ∀ l ∈ ls, l.isBad = false) (hold : old.head? ≠ some '\ufeff')
    (hl : StandBefore (lexemes (trim (spellLexemes ls))) [']']) :
    ∃ pre post, ls = pre ++ (lexemes (trim (spellLexemes ls)) ++ post) ∧
      (∀ l ∈ pre, l.isBlank = true) ∧ ∀ l ∈ post, l.isBlank = true := by
  obtain ⟨pre, core, post, rfl, hpre, hpost, hfirst, hlast⟩ := exists_core Lexeme.isBlank ls
  have hcore : StandBefore core (spellLexemes post ++ old) :=
    (standBefore_append.1 (standBefore_append.1 h).2).1
  have hgood : ∀ l ∈ core, l.isBad = false :=
    fun l hm => hg l (List.mem_append_right _ (List.mem_append_left _ hm))
  have hmark : (spellLexemes post ++ old).head? ≠ some '\ufeff' := by
    cases hp : spellLexemes post with
    | nil => exact hold
    | cons c cs =>
      intro he
      have hc := isBlank_spell hpost c (by simp [hp])
      rw [Option.some.inj he] at hc
      exact absurd hc (by decide)
  refine ⟨pre, post, ?_, hpre, hpost⟩
  suffices hlex : lexemes (trim (spellLexemes (pre ++ (core ++ post)))) = core by rw [hlex]
  rw [spellLexemes_append, spellLexemes_append] at hl ⊢
  rcases List.eq_nil_or_concat' core with rfl | ⟨init, l, rfl⟩
  · rw [spellLexemes_nil, trim_append (isBlank_spell hpre) (isBlank_spell hpost) (by simp)
      (by simp), lexemes_nil]
  · have hstand : l.StandsBefore (spellLexemes post ++ old) := by
      have hs := (standBefore_append.1 hcore).2.1
      rwa [spellLexemes_nil, List.nil_append] at hs
    have hlgood := hgood l (by simp)
    have hhead := spell_head hcore hgood hfirst
    -- A settled last lexeme stands before the bracket as it stood before the blanks.
    rcases settled_or_comment hstand hlgood hmark with hs | ⟨u, rfl⟩
    · have htail : ∀ x ∈ (spellLexemes (init ++ [l])).getLast?, Text.isBlank x = false := by
        intro x hx
        refine hstand.final hlgood (hlast l (by simp)) (fun text he => ?_) x ?_
        · rw [he] at hs
          exact hs
        · obtain ⟨c, cs, hc⟩ := List.exists_cons_of_ne_nil hstand.text_ne_nil
          simpa [hc] using hx
      have hboundary : StandBefore (init ++ [l]) [']'] := by
        refine hcore.before_boundary hgood (fun m hm => ?_) rfl []
        obtain rfl : l = m := by simpa using hm
        exact hs
      have hbracket := lexemes_spell_append hl
      rw [spellLexemes_lexemes, trim_append (isBlank_spell hpre) (isBlank_spell hpost) hhead htail,
        lexemes_spell_append hboundary] at hbracket
      rw [trim_append (isBlank_spell hpre) (isBlank_spell hpost) hhead htail]
      exact (List.append_cancel_right hbracket).symm
    · refine absurd hl (not_stand_of_comment hcore (fun l hm => hgood l ?_) (isBlank_spell hpre)
        (isBlank_spell hpost) hhead)
      exact List.mem_append_left _ hm

/-! ## From tokens to lexemes -/

/-- Tokens open and close the brackets of their lexemes. -/
theorem openAfter_tokens (s : Scanner) (d : Nat) (ls : List Lexeme) :
    Token.openAfter d (s.tokens ls) = depthAfter d ls := by
  fun_induction depthAfter d ls generalizing s with
  | case1 => rfl
  | case2 d kind text ls ho ih =>
    rw [Scanner.tokens_token, Token.openAfter_cons, Scanner.token_kind, bracketStep_opens ho]
    exact ih _
  | case3 kind text ls ho hc =>
    rw [Scanner.tokens_token, Token.openAfter_cons]
    simp [Kind.bracketStep, ho, hc]
  | case4 kind text ls ho hc d ih =>
    rw [Scanner.tokens_token, Token.openAfter_cons, Scanner.token_kind, bracketStep_closes ho hc]
    exact ih _
  | case5 d kind text ls ho hc ih =>
    rw [Scanner.tokens_token, Token.openAfter_cons, Scanner.token_kind, bracketStep_plain ho hc]
    exact ih _
  | case6 d l ls hl ih =>
    have hemit : Token.openAfter d (s.emit l) = some d := by
      cases l with
      | token kind text => exact absurd rfl (hl kind text)
      | bad text => rfl
      | layout text =>
        rw [Scanner.emit]
        split
        · rfl
        · rfl
    rw [Scanner.tokens, Token.openAfter_append, hemit]
    exact ih _

namespace Scanner

/-- A token of a text is found among its lexemes, and the tokens before it are those of the
lexemes before it. -/
theorem tokensToEnd_split {s : Scanner} {ls : List Lexeme} {us ts : List Token} {t : Token}
    (h : s.tokensToEnd ls = us ++ t :: ts) (ht : t.kind ≠ .semi) :
    ∃ ms text ns, ls = ms ++ Lexeme.token t.kind text :: ns ∧ us = s.tokens ms ∧
      t = (s.after ms).token t.kind text := by
  induction ls generalizing s us with
  | nil =>
    rw [tokensToEnd_nil, finish] at h
    split at h
    · cases us with
      | nil =>
        obtain ⟨rfl, -⟩ := List.cons.inj h
        exact absurd rfl ht
      | cons u us => simp at h
    · simp at h
  | cons l ls ih =>
    -- The token is among those of the rest if the first lexeme adds only tokens before it.
    have hrest : ∀ vs, us = s.emit l ++ vs → (s.step l).tokensToEnd ls = vs ++ t :: ts →
        ∃ ms text ns, l :: ls = ms ++ .token t.kind text :: ns ∧ us = s.tokens ms ∧
          t = (s.after ms).token t.kind text := by
      rintro vs rfl hvs
      obtain ⟨ms, text, ns, rfl, rfl, ht⟩ := ih hvs
      exact ⟨l :: ms, text, ns, rfl, rfl, ht⟩
    have hcons : s.emit l ++ (s.step l).tokensToEnd ls = us ++ t :: ts := by
      rw [← h, tokensToEnd, tokensToEnd, tokens, after_cons, List.append_assoc]
    rcases List.append_eq_append_iff.1 hcons with ⟨vs, hus, hvs⟩ | ⟨vs, hemit, hvs⟩
    · exact hrest vs hus hvs
    · cases vs with
      | nil => exact hrest [] (by simpa using hemit.symm) (by simpa using hvs.symm)
      | cons v vs =>
        obtain ⟨rfl, -⟩ := List.cons.inj hvs
        cases l with
        | bad text => simp [emit] at hemit
        | token kind text =>
          cases us with
          | nil =>
            obtain ⟨rfl, -⟩ := List.cons.inj hemit
            exact ⟨[], text, ls, rfl, rfl, rfl⟩
          | cons u us => simp [emit] at hemit
        | layout text =>
          have hmem : t ∈ s.emit (.layout text) := by simp [hemit]
          rw [emit] at hmem
          split at hmem
          · rw [List.mem_singleton.1 hmem] at ht
            exact absurd rfl ht
          · cases hmem

/-- Where tokens are split, their lexemes can be split. -/
theorem tokens_split {s : Scanner} {ls : List Lexeme} {us vs : List Token}
    (h : s.tokens ls = us ++ vs) :
    ∃ ms ns, ls = ms ++ ns ∧ us = s.tokens ms ∧ vs = (s.after ms).tokens ns := by
  induction ls generalizing s us with
  | nil =>
    obtain ⟨rfl, rfl⟩ := List.append_eq_nil_iff.1 h.symm
    exact ⟨[], [], rfl, rfl, rfl⟩
  | cons l ls ih =>
    cases us with
    | nil => exact ⟨[], l :: ls, rfl, rfl, h.symm⟩
    | cons u us =>
      have hemit : (∃ x, s.emit l = [x]) ∨ s.emit l = [] := by
        cases l with
        | token kind text => exact Or.inl ⟨_, rfl⟩
        | layout | bad => exact (s.emit_cases (by simp)).symm.imp_left fun he => ⟨_, he⟩
      rw [tokens] at h
      rcases hemit with ⟨x, hx⟩ | hx
      · rw [hx] at h
        obtain ⟨rfl, hrest⟩ := List.cons.inj h
        obtain ⟨ms, ns, rfl, rfl, rfl⟩ := ih hrest
        exact ⟨l :: ms, ns, rfl, by rw [tokens, hx]; rfl, rfl⟩
      · rw [hx] at h
        obtain ⟨ms, ns, rfl, hus, rfl⟩ := ih h
        exact ⟨l :: ms, ns, rfl, by rw [hus, tokens, hx]; rfl, rfl⟩

/-- What has been skipped since the last token is layout at the end of the lexemes so far. -/
theorem gap_after_token {s : Scanner} (hs : s.gap = []) (ls : List Lexeme)
    (hg : ∀ l ∈ ls, l.isBad = false) : ∃ ms gap, ls = ms ++ gap ∧ (∀ l ∈ gap, l.isLayout = true) ∧
      (s.after ls).gap = spellLexemes gap := by
  induction ls using List.reverseRecOn with
  | nil => exact ⟨[], [], rfl, by simp, hs⟩
  | append_singleton ls l ih =>
    obtain ⟨hg, hl⟩ := List.forall_mem_append.1 hg
    obtain ⟨ms, gap, hls, hgap, hspell⟩ := ih hg
    rw [after_append, after_cons, after_nil]
    cases l with
    | bad text => exact absurd (hl _ List.mem_cons_self) (by simp [Lexeme.isBad])
    | token kind text => exact ⟨ls ++ [.token kind text], [], by simp, by simp, rfl⟩
    | layout text =>
      rw [step]
      split
      · exact ⟨ls, [.layout text], rfl, List.forall_mem_singleton.2 rfl, by simp⟩
      · refine ⟨ms, gap ++ [.layout text], by rw [hls, List.append_assoc], ?_, by simp [hspell]⟩
        exact List.forall_mem_append.2 ⟨hgap, List.forall_mem_singleton.2 rfl⟩

end Scanner

/-! ## Lengths -/

/-- What stands between two tokens of a text is spelled by lexemes whose tokens stand there. -/
theorem inner_lexemes {source : String} {pre run post : List Token} {close : Token}
    (h : tokenize source = .ok (pre ++ (run ++ close :: post))) (hk : close.kind.closes = true) :
    ∃ ls old, StandBefore ls old ∧ (∀ l ∈ ls, l.isBad = false) ∧
      (∃ c ∈ old.head?, c ≠ '\n' ∧ c ≠ '\ufeff') ∧
      (Token.inner run close).toList = spellLexemes ls ∧
      ∃ s gap inner, ls = gap ++ inner ∧ (∀ l ∈ gap, l.isLayout = true) ∧
        run = Scanner.tokens s inner := by
  obtain ⟨hg, ht⟩ := tokenize_ok h
  have hsplit : Scanner.start.tokensToEnd (lexemes source.toList) =
      (pre ++ run) ++ close :: post := by
    rw [List.append_assoc]
    exact ht.symm
  obtain ⟨ms, text, ns, hls, hrun, hclose⟩ :=
    Scanner.tokensToEnd_split hsplit fun hsemi => by rw [hsemi] at hk; cases hk
  obtain ⟨before, inner, rfl, hpre, rfl⟩ := Scanner.tokens_split hrun.symm
  rw [hls] at hg
  obtain ⟨hg, -⟩ := List.forall_mem_append.1 hg
  obtain ⟨hgbefore, hginner⟩ := List.forall_mem_append.1 hg
  -- What stands in front of the first token of the run is layout behind the last token before it.
  obtain ⟨first, gap, rfl, hgap, hspell⟩ := Scanner.gap_after_token (s := .start) rfl before hgbefore
  have hstand := standBefore_lexemes source.toList
  rw [hls, List.append_assoc, List.append_assoc] at hstand
  have hstand := (standBefore_append.1 hstand).2
  rw [← List.append_assoc] at hstand
  refine ⟨gap ++ inner, spellLexemes (.token close.kind text :: ns) ++ [],
    (standBefore_append.1 hstand).1, ?_, ?_, ?_, _, gap, inner, rfl, hgap, rfl⟩
  · exact List.forall_mem_append.2 ⟨fun l hl => hgbefore l (List.mem_append_right _ hl), hginner⟩
  · -- Neither a line end nor a byte order mark begins a token.
    obtain ⟨c, cs, htext, hn⟩ := (standBefore_append.1 hstand).2.1
    refine ⟨c, ?_, ?_, ?_⟩
    · rw [spellLexemes_cons, List.append_assoc, htext]
      rfl
    · rintro rfl
      cases hn
    · rintro rfl
      cases hn
  · have hall := (Scanner.start.after (first ++ gap)).spellAll_tokens hginner
    rw [Token.inner, hclose, Scanner.token_gap, Scanner.after_append _ (first ++ gap), hall, hspell,
      String.toList_ofList, spellLexemes_append]

/-- What is kept of a run in brackets. -/
theorem extract?_enclosed {opening close : Token} {run : List Token} {s : String} :
    ((Segment.enclosed opening run close).extract? = some (.body s) → s = Token.inner run close) ∧
      ((Segment.enclosed opening run close).extract? = some (.length s) →
        s = String.ofList (trim (Token.inner run close).toList)) := by
  constructor <;> intro h <;> rw [Segment.extract?] at h <;> split at h <;> cases h <;> rfl

/-- A run in brackets stands among the tokens of the segments. -/
theorem Spans.enclosed_mem {rest : List Token} {a b : Nat} {xs : List Segment}
    (h : Spans rest a xs b) {opening close : Token} {run : List Token}
    (hm : .enclosed opening run close ∈ xs) :
    Token.openAfter 0 run = some 0 ∧ close.kind.closes = true := by
  induction h with
  | nil => cases hm
  | token _ _ _ _ ih | reference _ _ _ _ ih | imports _ _ _ ih | text _ _ _ _ _ _ ih =>
    rcases List.mem_cons.1 hm with he | hm
    · cases he
    · exact ih hm
  | enclosed _ hrun hclose _ ih =>
    rcases List.mem_cons.1 hm with he | hm
    · cases he
      refine ⟨hrun, ?_⟩
      by_contra hc
      by_cases ho : close.kind.opens = true
      · rw [bracketStep_opens ho] at hclose
        cases hclose
      · rw [bracketStep_plain ho hc] at hclose
        cases hclose
    · exact ih hm

/-- What is kept of a file as the text of a length or of a body stood between brackets. -/
theorem Spans.exists_enclosed {rest : List Token} {a b : Nat} {xs : List Segment}
    (h : Spans rest a xs b) {e : Extract} (he : e ∈ Segment.extracts xs)
    (hk : (∃ s, e = .length s) ∨ ∃ s, e = .body s) : ∃ before opening run close after,
      xs = before ++ .enclosed opening run close :: after ∧
      (Segment.enclosed opening run close).extract? = some e ∧
      Token.openAfter 0 run = some 0 ∧ close.kind.closes = true := by
  obtain ⟨x, hx, hkept⟩ := List.mem_filterMap.1 he
  match x, hx, hkept with
  | .token _, _, hkept | .imports _, _, hkept => cases hkept
  | .reference _ _ _, _, hkept | .text none _, _, hkept | .text (some _) _, _, hkept =>
    cases Option.some.inj hkept
    rcases hk with ⟨s, hs⟩ | ⟨s, hs⟩ <;> cases hs
  | .enclosed opening run close, hx, hkept =>
    obtain ⟨hrun, hclose⟩ := h.enclosed_mem hx
    obtain ⟨before, after, rfl⟩ := List.append_of_mem hx
    exact ⟨before, opening, run, close, after, rfl, hkept, hrun, hclose⟩

/-- The lengths among the leaves of a file are kept of it. -/
theorem length_mem_extracts {file : SourceFile} {s : String} (h : .length s ∈ file.leaves) :
    .length s ∈ file.extracts := by
  have hleaf : ∀ ls : List Leaf, .length s ∈ ls → .length s ∈ leafExtracts ls :=
    fun ls hm => List.mem_filterMap.2 ⟨_, hm, rfl⟩
  rw [SourceFile.leaves, List.mem_cons, List.mem_append] at h
  rcases h with h | h | h
  · cases h
  · obtain ⟨i, -, hm⟩ := List.mem_flatMap.1 h
    obtain ⟨n, -, hn⟩ := List.mem_map.1 hm
    cases hn
  · obtain ⟨d, hd, hm⟩ := List.mem_flatMap.1 h
    refine List.mem_flatMap.2 ⟨d, hd, ?_⟩
    cases d with
    | const specs | var specs =>
      obtain ⟨spec, hspec, hm⟩ := List.mem_flatMap.1 hm
      exact List.mem_flatMap.2 ⟨spec, hspec, List.mem_append_left _ (hleaf _ hm)⟩
    | type specs =>
      obtain ⟨spec, hspec, hm⟩ := List.mem_flatMap.1 hm
      exact List.mem_flatMap.2 ⟨spec, hspec, hleaf _ hm⟩
    | func decl => exact List.mem_append_left _ (hleaf _ hm)

/-- **The brackets in the length of an array are closed**, unless the text of the length goes on
over the bracket behind it. -/
theorem parse_lengths {source : String} {file : SourceFile}
    (h : SourceFile.parse source = .ok file) {s : String} (hs : .length s ∈ file.leaves)
    (hl : (Leaf.length s).Lexes) : Balanced (lexemes s.toList) := by
  obtain ⟨xs, ht, hxs, he⟩ := parse_segments h
  have hm := length_mem_extracts hs
  rw [he] at hm
  obtain ⟨before, opening, run, close, after, rfl, hkept, hrun, hclose⟩ :=
    hxs.exists_enclosed hm (Or.inl ⟨s, rfl⟩)
  have htokens : tokenize source = .ok ((Segment.allTokens before ++ [opening]) ++
      (run ++ close :: Segment.allTokens after)) := by
    simpa [Segment.tokens] using ht
  obtain ⟨ls, old, hstand, hg, ⟨c, hc, -, hmark⟩, hspell, s, gap, inner, hls, hgap, rfl⟩ :=
    inner_lexemes htokens hclose
  have hold : old.head? ≠ some '\ufeff' := by
    rw [Option.mem_def.1 hc]
    exact fun h => hmark (Option.some.inj h)
  obtain rfl := extract?_enclosed.2 hkept
  have hbalanced : Balanced ls := by
    rw [hls, Balanced, depthAfter_layout hgap, ← openAfter_tokens s]
    exact hrun
  have hbracket := hl.1 []
  rw [hspell, String.toList_ofList] at hbracket ⊢
  obtain ⟨pre, post, hcore, hpre, hpost⟩ := lexemes_trim hstand hg hold hbracket
  rw [hcore] at hbalanced
  exact balanced_core hpre hpost hbalanced

end Understudy.Source

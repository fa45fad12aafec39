import Understudy.Proofs.BodyIndentation
import Understudy.Proofs.EnclosedLexemes

/-!
# Blanks around line ends

Text is laid out line by line: blanks at the end of a line are removed, the indentation at its front
is replaced by another, and empty lines are left out. `Relaid` says that one text is another with no
other changes. What such a change does to the tokens depends on what the line end is part of. Mostly
it is layout on its own, or it stands in a comment; only a literal that goes over the end of the line
has the blanks in its text.

> **Such a change keeps all tokens, but for the blanks in literals over several lines**
> (`Relaid.respells`),

and between the tokens it keeps the first line end, which can end a statement (`Relaid.respaces`).
-/

set_option autoImplicit false

namespace Understudy.Source

open Text

/-! ## Relaid texts -/

/-- Whether only blanks stand before the next line end. -/
def BlankToEnd (cs : List Char) : Prop :=
  ∃ s rest, cs = s ++ '\n' :: rest ∧ ∀ c ∈ s, isBlank c = true

/-- Whether the second text is the first with other blanks around its line ends. The flag says that
nothing but indentation stands before the texts on their line. -/
inductive Relaid : Bool → List Char → List Char → Prop
  | nil {front : Bool} : Relaid front [] []
  | same {front : Bool} {c : Char} {x y : List Char} : c ≠ '\n' → Relaid false x y →
      Relaid front (c :: x) (c :: y)
  | newline {front : Bool} {x y : List Char} : Relaid true x y →
      Relaid front ('\n' :: x) ('\n' :: y)
  /-- A blank at the end of a line is removed. -/
  | trailing {front : Bool} {c : Char} {x y : List Char} : isBlank c = true → c ≠ '\n' →
      Relaid front x ('\n' :: y) → Relaid front (c :: x) ('\n' :: y)
  /-- Indentation is removed. -/
  | unindent {c : Char} {x y : List Char} : isIndent c = true → Relaid true x y →
      Relaid true (c :: x) y
  /-- Indentation is added. -/
  | indent {c : Char} {x y : List Char} : isIndent c = true → Relaid true x y →
      Relaid true x (c :: y)
  /-- An empty line is left out, character by character. -/
  | leaveOut {c : Char} {x y : List Char} : isBlank c = true → BlankToEnd (c :: x) →
      Relaid true x y → Relaid true (c :: x) y

/-- The characters of a text that are no blanks. -/
def graphic (cs : List Char) : List Char := cs.filter fun c => !isBlank c

theorem graphic_blank {c : Char} (h : isBlank c = true) (cs : List Char) :
    graphic (c :: cs) = graphic cs := by
  simp [graphic, h]

theorem graphic_congr {x y : List Char} (h : graphic x = graphic y) {c : Char} :
    graphic (c :: x) = graphic (c :: y) := by
  rw [graphic, graphic, List.filter_cons, List.filter_cons]
  split
  · exact congrArg (c :: ·) h
  · exact h

theorem isBlank_newline : isBlank '\n' = true := by decide

section BlankToEnd

variable {c : Char} {cs : List Char}

theorem blankToEnd_newline (cs : List Char) : BlankToEnd ('\n' :: cs) := ⟨[], cs, rfl, by simp⟩

theorem blankToEnd_cons (hc : c ≠ '\n') :
    BlankToEnd (c :: cs) ↔ isBlank c = true ∧ BlankToEnd cs := by
  constructor
  · rintro ⟨s, rest, h, hs⟩
    cases s with
    | nil => exact absurd (List.cons.inj h).1 hc
    | cons d s =>
      obtain ⟨rfl, rfl⟩ := List.cons.inj h
      obtain ⟨hd, hs⟩ := List.forall_mem_cons.1 hs
      exact ⟨hd, s, rest, rfl, hs⟩
  · rintro ⟨hc, s, rest, rfl, hs⟩
    exact ⟨c :: s, rest, rfl, List.forall_mem_cons.2 ⟨hc, hs⟩⟩

theorem blankToEnd_append {s : List Char} (h : ∀ c ∈ s, isBlank c = true) (rest : List Char) :
    BlankToEnd (s ++ '\n' :: rest) := ⟨s, rest, rfl, h⟩

theorem blank_of_blankToEnd {a x : List Char} (h : BlankToEnd (a ++ x)) (hn : '\n' ∉ a) :
    ∀ c ∈ a, isBlank c = true := by
  induction a with
  | nil => simp
  | cons c a ih =>
    rw [List.mem_cons, not_or] at hn
    obtain ⟨hc, h⟩ := (blankToEnd_cons (Ne.symm hn.1)).1 h
    exact List.forall_mem_cons.2 ⟨hc, ih h hn.2⟩

end BlankToEnd

namespace Relaid

variable {front : Bool} {x y z : List Char}

/-- Only blanks stand before a line end that follows at once in the other text. -/
theorem blankToEnd (h : Relaid front x y) {t : List Char} (hy : y = '\n' :: t) :
    BlankToEnd x := by
  induction h with
  | nil => cases hy
  | same hc _ _ => exact absurd (List.cons.inj hy).1 hc
  | newline _ _ => exact blankToEnd_newline _
  | trailing hb hn _ ih => exact (blankToEnd_cons hn).2 ⟨hb, ih hy⟩
  | unindent hi _ ih =>
    refine (blankToEnd_cons ?_).2 ⟨isBlank_of_isIndent hi, ih hy⟩
    rintro rfl
    cases hi
  | indent hi _ _ =>
    obtain ⟨rfl, -⟩ := List.cons.inj hy
    cases hi
  | leaveOut _ h _ _ => exact h

/-! ## Splitting a relaid text

The first text is read lexeme by lexeme, and the second is split where the first is. -/

/-- Text on one line that ends with no blank is left as it is. -/
theorem split_line {a : List Char} (h : Relaid false (a ++ x) y) (hn : '\n' ∉ a)
    (hl : ∀ c ∈ a.getLast?, isBlank c = false) : ∃ y', y = a ++ y' ∧ Relaid false x y' := by
  induction a generalizing y with
  | nil => exact ⟨y, rfl, h⟩
  | cons c a ih =>
    rw [List.mem_cons, not_or] at hn
    have hrest : ∀ d ∈ a.getLast?, isBlank d = false := by
      intro d hd
      refine hl d ?_
      rw [List.getLast?_cons, Option.mem_def.1 hd]
      rfl
    cases h with
    | same _ h =>
      obtain ⟨y', rfl, hy⟩ := ih h hn.2 hrest
      exact ⟨y', rfl, hy⟩
    | newline _ => exact absurd rfl hn.1
    | trailing hb _ h =>
      -- Only blanks would stand before the line end, but the text ends with no blank before it.
      exfalso
      have hall := blank_of_blankToEnd (h.blankToEnd rfl) hn.2
      cases hlast : a.getLast? with
      | none =>
        have hc := hl c (by rw [List.getLast?_cons, hlast]; rfl)
        rw [hb] at hc
        cases hc
      | some d =>
        have hd := hrest d hlast
        rw [hall d (List.mem_of_getLast? hlast)] at hd
        cases hd

/-- What follows is the same up to the next change, and there a line ends in the second text. -/
theorem split_change (h : Relaid false x y) : ∃ u r s, x = u ++ r ∧ y = u ++ s ∧
    ((r = [] ∧ s = []) ∨ (s.head? = some '\n' ∧ r.head? ≠ some '\ufeff')) := by
  induction x generalizing y with
  | nil =>
    cases h
    exact ⟨[], [], [], rfl, rfl, Or.inl ⟨rfl, rfl⟩⟩
  | cons c x ih =>
    cases h with
    | same _ h =>
      obtain ⟨u, r, s, rfl, rfl, hend⟩ := ih h
      exact ⟨c :: u, r, s, rfl, rfl, hend⟩
    | newline h => exact ⟨[], _, _, rfl, rfl, Or.inr ⟨rfl, by simp⟩⟩
    | trailing hb _ h =>
      refine ⟨[], _, _, rfl, rfl, Or.inr ⟨rfl, fun hc => ?_⟩⟩
      rw [Option.some.inj hc] at hb
      exact absurd hb (by decide)

/-- The first character, unless a line ends there in the second text. -/
theorem head_eq {c : Char} (h : Relaid false x y) (hy : y.head? = some c) (hc : c ≠ '\n') :
    x.head? = some c := by
  cases h with
  | nil => cases hy
  | same _ _ => exact hy
  | newline _ | trailing _ _ _ => exact absurd (Option.some.inj hy).symm hc

/-- Text up to a line end or to the end of the text. -/
theorem split_toEnd {u : List Char} (h : Relaid false (u ++ x) y) (hn : '\n' ∉ u)
    (hx : x = [] ∨ x.head? = some '\n') : ∃ u' y', y = u' ++ y' ∧ '\n' ∉ u' ∧
      (y' = [] ∨ y'.head? = some '\n') ∧ Relaid false x y' := by
  induction u generalizing y with
  | nil =>
    refine ⟨[], y, rfl, List.not_mem_nil, ?_, h⟩
    cases h with
    | nil => exact Or.inl rfl
    | same hc _ => exact absurd (Option.some.inj (hx.resolve_left (List.cons_ne_nil _ _))) hc
    | newline _ | trailing _ _ _ => exact Or.inr rfl
  | cons c u ih =>
    rw [List.mem_cons, not_or] at hn
    cases h with
    | same hc h =>
      obtain ⟨u', y', rfl, hu, hy, h⟩ := ih h hn.2
      refine ⟨c :: u', y', rfl, ?_, hy, h⟩
      rw [List.mem_cons, not_or]
      exact ⟨hn.1, hu⟩
    | newline _ => exact absurd rfl hn.1
    | trailing _ _ h => exact ih h hn.2

/-! ## Lexemes with an end mark -/

theorem cons_eq_append {c : Char} {a m : List Char} (h : c :: a = m ++ x) (hm : m ≠ []) :
    ∃ t, m = c :: t ∧ a = t ++ x := by
  obtain ⟨d, t, rfl⟩ := List.exists_cons_of_ne_nil hm
  obtain ⟨rfl, rfl⟩ := List.cons.inj h
  exact ⟨t, rfl, rfl⟩

/-- Whether `y` begins with a text that is closed in the sense of `P` and has the characters of `m`
but for blanks, and goes on as `x` does. In the middle of a line it also has a line end if `m` has
one. -/
def ClosesAs (P : List Char → Prop) (front : Bool) (m x y : List Char) : Prop :=
  ∃ m' y', y = m' ++ y' ∧ P m' ∧ graphic m' = graphic m ∧
    (front = false → ('\n' ∈ m' ↔ '\n' ∈ m)) ∧ Relaid false x y'

section Closes

variable {P : List Char → Prop} {m : List Char}

/-- A blank is removed. -/
theorem ClosesAs.blank {c : Char} (hb : isBlank c = true) (hn : front = false → c ≠ '\n')
    (h : ClosesAs P front m x y) : ClosesAs P front (c :: m) x y := by
  obtain ⟨m', y', rfl, hm', hg, hline, hrest⟩ := h
  refine ⟨m', y', rfl, hm', by rw [graphic_blank hb, hg], fun hf => ?_, hrest⟩
  rw [hline hf, List.mem_cons, or_iff_right (Ne.symm (hn hf))]

/-- A character is kept, and what may be put together with what follows it is settled. -/
theorem ClosesAs.cons {c : Char} (h : ClosesAs P false m x y) {Q : List Char → Prop}
    (hq : ∀ m' y', y = m' ++ y' → P m' → Q (c :: m')) : ClosesAs Q front (c :: m) x (c :: y) := by
  obtain ⟨m', y', rfl, hm', hg, hline, hrest⟩ := h
  refine ⟨_, y', rfl, hq m' y' rfl hm', graphic_congr hg, fun _ => ?_, hrest⟩
  rw [List.mem_cons, List.mem_cons, hline rfl]

/-- A line end is kept. -/
theorem ClosesAs.newline (h : ClosesAs P true m x y) {Q : List Char → Prop}
    (hq : ∀ m', P m' → Q ('\n' :: m')) : ClosesAs Q front ('\n' :: m) x ('\n' :: y) := by
  obtain ⟨m', y', rfl, hm', hg, -, hrest⟩ := h
  exact ⟨_, y', rfl, hq m' hm', graphic_congr hg, fun _ => by simp, hrest⟩

/-- Indentation is added. -/
theorem ClosesAs.indent {c : Char} (hi : isIndent c = true) (h : ClosesAs P true m x y)
    (hp : ∀ m', P m' → P (c :: m')) : ClosesAs P true m x (c :: y) := by
  obtain ⟨m', y', rfl, hm', hg, -, hrest⟩ := h
  exact ⟨_, y', rfl, hp m' hm', by rw [graphic_blank (isBlank_of_isIndent hi), hg], by simp, hrest⟩

/-- A text that is closed by its end mark is closed by it when it is relaid, if blanks do not matter
to that. Of its other characters, `hsame` says that they are the end mark or matter only to what
follows at once. -/
theorem closesAs (hnil : ¬ P []) (hblank : ∀ {c t}, isBlank c = true → (P (c :: t) ↔ P t))
    (hsame : ∀ {c t y}, P (c :: t) → Relaid false (t ++ x) y →
      (∃ y', y = t ++ y' ∧ Relaid false x y') ∨
      (P t ∧ ∀ m' y', y = m' ++ y' → P m' → P (c :: m')))
    (h : Relaid front z y) (hz : z = m ++ x) (hm : P m) : ClosesAs P front m x y := by
  have hne : ∀ {m}, P m → m ≠ [] := by
    rintro m hm rfl
    exact hnil hm
  -- A blank that comes or goes leaves what closes the rest; of the other characters `hsame` tells.
  induction h generalizing m with
  | nil => exact absurd (List.append_eq_nil_iff.1 hz.symm).1 (hne hm)
  | same hn h ih =>
    obtain ⟨t, rfl, rfl⟩ := cons_eq_append hz (hne hm)
    rcases hsame hm h with ⟨y', rfl, hrest⟩ | ⟨ht, hcons⟩
    · exact ⟨_, y', rfl, hm, rfl, fun _ => Iff.rfl, hrest⟩
    · exact (ih rfl ht).cons hcons
  | newline h ih =>
    obtain ⟨t, rfl, rfl⟩ := cons_eq_append hz (hne hm)
    exact (ih rfl ((hblank isBlank_newline).1 hm)).newline fun _ => (hblank isBlank_newline).2
  | trailing hb hn h ih =>
    obtain ⟨t, rfl, rfl⟩ := cons_eq_append hz (hne hm)
    exact (ih rfl ((hblank hb).1 hm)).blank hb fun _ => hn
  | leaveOut hb _ h ih =>
    obtain ⟨t, rfl, rfl⟩ := cons_eq_append hz (hne hm)
    exact (ih rfl ((hblank hb).1 hm)).blank hb (by simp)
  | unindent hi h ih =>
    obtain ⟨t, rfl, rfl⟩ := cons_eq_append hz (hne hm)
    have hb := isBlank_of_isIndent hi
    exact (ih rfl ((hblank hb).1 hm)).blank hb (by simp)
  | indent hi h ih =>
    exact (ih hz hm).indent hi fun _ => (hblank (isBlank_of_isIndent hi)).2

/-- A raw string ends at the next back quote. -/
theorem closesAs_raw (h : Relaid front (m ++ x) y) (hm : Enclosed.raw.Closes m) :
    ClosesAs Enclosed.raw.Closes front m x y := by
  refine closesAs (fun h => h.ne_nil rfl) (fun {c t} hc => ?_) (fun {c t y} hm h => ?_) h rfl hm
  · have hne : c ≠ '\x60' := by
      rintro rfl
      cases hc
    exact rawTail_closes_cons.trans (by simp [hne, Enclosed.Closes, Enclosed.tail?])
  · rcases rawTail_closes_cons.1 hm with ⟨rfl, rfl⟩ | ⟨hc, ht⟩
    · exact Or.inl ⟨y, rfl, h⟩
    · exact Or.inr ⟨ht, fun m' _ _ hm' => rawTail_closes_cons.2 (Or.inr ⟨hc, hm'⟩)⟩

/-- A block comment ends at its mark, since the halves of no other mark come together. -/
theorem closesAs_comment (h : Relaid front (m ++ x) y) (hm : Enclosed.comment.Closes m) :
    ClosesAs Enclosed.comment.Closes front m x y := by
  refine closesAs (fun h => h.ne_nil rfl) (fun {c t} hc => ?_) (fun {c t y} hm h => ?_) h rfl hm
  · have hne : c ≠ '*' := by
      rintro rfl
      cases hc
    exact blockComment_closes_cons.trans (by simp [hne, Enclosed.Closes, Enclosed.tail?])
  · rcases blockComment_closes_cons.1 hm with ⟨rfl, rfl⟩ | ⟨hc, ht⟩
    · have hslash : ∀ c ∈ ['/'].getLast?, isBlank c = false := by
        intro c hc
        rw [← Option.some.inj hc]
        decide
      exact Or.inl (h.split_line (a := ['/']) (by decide) hslash)
    · refine Or.inr ⟨ht, fun m' y' hy hm' => blockComment_closes_cons.2 (Or.inr ⟨?_, hm'⟩)⟩
      -- A slash that now stands behind the star stood there before.
      rintro ⟨rfl, hslash⟩
      have hhead := h.head_eq (c := '/') (by rw [hy, List.head?_append, hslash]; rfl) (by decide)
      refine hc ⟨rfl, ?_⟩
      have hne : t ≠ [] := Enclosed.Closes.ne_nil (e := .comment) ht
      obtain ⟨d, t, rfl⟩ := List.exists_cons_of_ne_nil hne
      exact hhead

/-- What is left of a quoted literal closes it; the flag says whether a backslash takes the first
character along. -/
def QuoteCloses (q : Char) : Bool → List Char → Prop
  | false, m => quotedTail? q m = some (m, [])
  | true, m => ∃ c t, m = c :: t ∧ quotedTail? q t = some (t, [])

theorem not_blankToEnd_of_quote {q : Char} {m x : List Char} (hq : isBlank q = false)
    (hm : quotedTail? q m = some (m, [])) : ¬ BlankToEnd (m ++ x) := by
  induction m with
  | nil => cases hm
  | cons c m ih =>
    intro h
    by_cases hn : c = '\n'
    · subst hn
      simp [quotedTail?] at hm
    obtain ⟨hc, h⟩ := (blankToEnd_cons hn).1 h
    have hb : c ≠ '\\' := by
      rintro rfl
      cases hc
    rcases (quoted_closes_cons hb hn).1 hm with ⟨rfl, -⟩ | ⟨-, hm⟩
    · rw [hq] at hc
      cases hc
    · exact ih hm h

/-- A quoted literal goes over a line end only behind a backslash, and no blank is removed there. -/
theorem closesAs_quote {q : Char} (hq : isBlank q = false) {escaped : Bool}
    (h : Relaid front z y) (hf : front = true → escaped = false) (hz : z = m ++ x)
    (hm : QuoteCloses q escaped m) : ClosesAs (QuoteCloses q escaped) front m x y := by
  have hblank : ∀ {c : Char} {t : List Char}, isIndent c = true →
      (QuoteCloses q false (c :: t) ↔ QuoteCloses q false t) := by
    intro c t hi
    have hc := isBlank_of_isIndent hi
    have hne : c ≠ '\\' ∧ c ≠ '\n' ∧ c ≠ q := by
      refine ⟨?_, ?_, ?_⟩ <;> rintro rfl
      · cases hc
      · cases hi
      · rw [hq] at hc
        cases hc
    exact (quoted_closes_cons hne.1 hne.2.1).trans (by simp [hne.2.2, QuoteCloses])
  have hne : ∀ {escaped m}, QuoteCloses q escaped m → m ≠ [] := by
    rintro (_ | _) m hm rfl
    · cases hm
    · obtain ⟨c, t, h, -⟩ := hm
      cases h
  -- The flag follows the backslashes: behind one, the next character is taken whatever it is.
  induction h generalizing m escaped with
  | nil => exact absurd (List.append_eq_nil_iff.1 hz.symm).1 (hne hm)
  | @same _ c _ y hn h ih =>
    obtain ⟨t, rfl, rfl⟩ := cons_eq_append hz (hne hm)
    cases escaped with
    | true =>
      obtain ⟨_, _, ht, hm⟩ := hm
      obtain ⟨rfl, rfl⟩ := List.cons.inj ht
      have hm : QuoteCloses q false _ := hm
      exact (ih (by simp) rfl hm).cons fun m' _ _ hm' => ⟨c, m', rfl, hm'⟩
    | false =>
      by_cases hc : c = '\\'
      · subst hc
        have hescape : QuoteCloses q true t := by
          cases t with
          | nil => simp [QuoteCloses, quotedTail?] at hm
          | cons d t => exact ⟨d, t, rfl, quoted_closes_escape.1 hm⟩
        refine (ih (by simp) rfl hescape).cons fun _ _ _ hm' => ?_
        obtain ⟨d, u, rfl, hu⟩ := hm'
        exact quoted_closes_escape.2 hu
      · rcases (quoted_closes_cons hc hn).1 hm with ⟨rfl, rfl⟩ | ⟨hne, ht⟩
        · exact ⟨[c], y, rfl, hm, rfl, fun _ => Iff.rfl, h⟩
        · have ht : QuoteCloses q false t := ht
          exact (ih (by simp) rfl ht).cons fun _ _ _ hm' =>
            (quoted_closes_cons hc hn).2 (Or.inr ⟨hne, hm'⟩)
  | newline h ih =>
    obtain ⟨t, rfl, rfl⟩ := cons_eq_append hz (hne hm)
    cases escaped with
    | true =>
      obtain ⟨_, _, ht, hm⟩ := hm
      obtain ⟨rfl, rfl⟩ := List.cons.inj ht
      have hm : QuoteCloses q false _ := hm
      exact (ih (by simp) rfl hm).newline fun m' hm' => ⟨_, m', rfl, hm'⟩
    | false => exact absurd (blankToEnd_newline (t ++ x)) (not_blankToEnd_of_quote hq hm)
  | trailing hb hn h _ =>
    obtain ⟨t, rfl, rfl⟩ := cons_eq_append hz (hne hm)
    have hend := h.blankToEnd rfl
    cases escaped with
    | true =>
      obtain ⟨_, _, ht, hm⟩ := hm
      obtain ⟨rfl, rfl⟩ := List.cons.inj ht
      exact absurd hend (not_blankToEnd_of_quote hq hm)
    | false =>
      exact absurd ((blankToEnd_cons hn).2 ⟨hb, hend⟩) (not_blankToEnd_of_quote hq hm)
  | unindent hi h ih =>
    obtain ⟨t, rfl, rfl⟩ := cons_eq_append hz (hne hm)
    obtain rfl := hf rfl
    exact (ih hf rfl ((hblank hi).1 hm)).blank (isBlank_of_isIndent hi) (by simp)
  | indent hi h ih =>
    obtain rfl := hf rfl
    exact (ih hf hz hm).indent hi fun _ => (hblank hi).2
  | leaveOut _ hend h _ =>
    obtain rfl := hf rfl
    rw [hz] at hend
    exact absurd hend (not_blankToEnd_of_quote hq hm)

/-- **A lexeme with an end mark has one when it is relaid.** -/
theorem closesAs_enclosed {e : Enclosed} (h : Relaid false (m ++ x) y) (hm : e.Closes m) :
    ClosesAs e.Closes false m x y := by
  cases e with
  | comment => exact h.closesAs_comment hm
  | raw => exact h.closesAs_raw hm
  | string =>
    have hm : QuoteCloses '"' false m := hm
    exact h.closesAs_quote (by decide) (by simp) rfl hm
  | rune =>
    have hm : QuoteCloses '\'' false m := hm
    exact h.closesAs_quote (by decide) (by simp) rfl hm

end Closes

end Relaid

/-! ## Tokens of a relaid text -/

/-- The kind and the text of a token. -/
def Lexeme.form? : Lexeme → Option (Kind × String)
  | .token kind text => some (kind, String.ofList text)
  | .layout _ | .bad _ => none

/-- The kinds and texts of the tokens among some lexemes. -/
def tokenForms (ls : List Lexeme) : List (Kind × String) := ls.filterMap Lexeme.form?

/-- Whether a token has the kind and the text of another, or at least all characters of it that are
no blanks if it is a literal over several lines. -/
structure KeepsForm (old new : Kind × String) : Prop where
  kind : new.1 = old.1
  text : '\n' ∉ old.2.toList → new.2 = old.2
  graphic : graphic new.2.toList = graphic old.2.toList

/-- Whether the second text has the tokens of the first. -/
structure Respells (x y : List Char) : Prop where
  good : ∀ l ∈ lexemes y, l.isBad = false
  forms : List.Forall₂ KeepsForm (tokenForms (lexemes x)) (tokenForms (lexemes y))

theorem KeepsForm.refl (p : Kind × String) : KeepsForm p p := ⟨rfl, fun _ => rfl, rfl⟩

theorem tokenForms_append (ls ms : List Lexeme) :
    tokenForms (ls ++ ms) = tokenForms ls ++ tokenForms ms := List.filterMap_append

/-- Whether a lexeme is a token that keeps the form of another, or layout that has a line end if the
other one does. -/
def Lexeme.KeptAs : Lexeme → Lexeme → Prop
  | .token kind text, .token kind' text' =>
    KeepsForm (kind, String.ofList text) (kind', String.ofList text')
  | .layout text, .layout text' => '\n' ∈ text' ↔ '\n' ∈ text
  | _, _ => False

/-- Whether the second lexemes are the first with other layout around line ends. The flag is that of
`Relaid`: at the front of a line, further line ends do not count. -/
inductive KeepsLexemes : Bool → List Lexeme → List Lexeme → Prop
  | nil {front : Bool} : KeepsLexemes front [] []
  | same {front : Bool} {l l' : Lexeme} {ls ms : List Lexeme} : l.KeptAs l' →
      KeepsLexemes false ls ms → KeepsLexemes front (l :: ls) (l' :: ms)
  | newline {front : Bool} {ls ms : List Lexeme} : KeepsLexemes true ls ms →
      KeepsLexemes front (.layout ['\n'] :: ls) (.layout ['\n'] :: ms)
  | left {front : Bool} {text : List Char} {ls ms : List Lexeme} : (front = false → '\n' ∉ text) →
      KeepsLexemes front ls ms → KeepsLexemes front (.layout text :: ls) ms
  | right {front : Bool} {text : List Char} {ls ms : List Lexeme} : '\n' ∉ text →
      KeepsLexemes front ls ms → KeepsLexemes front ls (.layout text :: ms)

theorem Lexeme.KeptAs.forms {l l' : Lexeme} (h : l.KeptAs l') :
    List.Forall₂ KeepsForm (tokenForms [l]) (tokenForms [l']) := by
  cases l <;> cases l' <;> first | exact h.elim | exact .nil | exact .cons h .nil

theorem KeepsLexemes.forms {front : Bool} {ls ms : List Lexeme} (h : KeepsLexemes front ls ms) :
    List.Forall₂ KeepsForm (tokenForms ls) (tokenForms ms) := by
  induction h with
  | nil => exact .nil
  | @same _ l l' ls ms hl _ ih =>
    rw [← List.singleton_append, ← List.singleton_append (l := ms), tokenForms_append,
      tokenForms_append]
    exact List.rel_append hl.forms ih
  | newline _ ih | left _ _ ih | right _ _ ih => exact ih

theorem KeepsLexemes.kinds {front : Bool} {ls ms : List Lexeme} (h : KeepsLexemes front ls ms) :
    tokenKinds ls = tokenKinds ms := by
  induction h with
  | nil => rfl
  | @same _ l l' ls ms hl _ ih =>
    rw [← List.singleton_append, ← List.singleton_append (l := ms), tokenKinds_append,
      tokenKinds_append, ih]
    cases l <;> cases l' <;> first | exact hl.elim | rfl |
      exact congrArg (fun k => [k] ++ _) hl.kind.symm
  | newline _ ih | left _ _ ih | right _ _ ih => exact ih

/-- Whether the second text has the lexemes of the first, but for layout around line ends. -/
structure Respaces (front : Bool) (x y : List Char) : Prop where
  good : ∀ l ∈ lexemes y, l.isBad = false
  lexemes : KeepsLexemes front (lexemes x) (lexemes y)

section Respaces

variable {front : Bool} {x y : List Char} {l : Lexeme}

/-- A blank or line end of its own is a lexeme. -/
theorem lexemes_blank {c : Char} (hc : c = '\n' ∨ isLayoutBlank c = true) (cs : List Char) :
    lexemes (c :: cs) = .layout [c] :: lexemes cs := by
  rw [lexemes, (IsFirst.blank (by simpa using hc) rfl).next_eq]

theorem isLayoutBlank_of_isIndent {c : Char} (h : isIndent c = true) : isLayoutBlank c = true := by
  simp only [isIndent, Bool.or_eq_true, beq_iff_eq] at h
  rcases h with rfl | rfl <;> decide

/-- A blank at the front of a text without faults is layout. -/
theorem layout_of_good {c : Char} {cs : List Char} (hc : isBlank c = true)
    (hg : ∀ l ∈ lexemes (c :: cs), l.isBad = false) : c = '\n' ∨ isLayoutBlank c = true := by
  rw [lexemes] at hg
  rcases layout_or_bad hc with h | h
  · simpa using h
  · exact absurd (h cs) (by simp [(List.forall_mem_cons.1 hg).1])

theorem Respaces.left {c : Char} {x' : List Char} (hc : front = false → c ≠ '\n')
    (hx : Source.lexemes x = .layout [c] :: Source.lexemes x') (h : Respaces front x' y) :
    Respaces front x y where
  good := h.good
  lexemes := by
    rw [hx]
    exact .left (fun hf hmem => hc hf (List.mem_singleton.1 hmem).symm) h.lexemes

theorem Respaces.right {c : Char} {y' : List Char} (hc : c ≠ '\n')
    (hy : Source.lexemes y = .layout [c] :: Source.lexemes y') (h : Respaces front x y') :
    Respaces front x y where
  good := by
    rw [hy]
    exact List.forall_mem_cons.2 ⟨rfl, h.good⟩
  lexemes := by
    rw [hy]
    exact .right (fun hmem => hc (List.mem_singleton.1 hmem).symm) h.lexemes

/-- A lexeme that is kept. -/
theorem Respaces.same {l l' : Lexeme} {x' y' : List Char} (hl : l.KeptAs l')
    (hg : l'.isBad = false) (hx : Source.lexemes x = l :: Source.lexemes x')
    (hy : Source.lexemes y = l' :: Source.lexemes y') (h : Respaces false x' y') :
    Respaces front x y where
  good := by
    rw [hy]
    exact List.forall_mem_cons.2 ⟨hg, h.good⟩
  lexemes := by
    rw [hx, hy]
    exact .same hl h.lexemes

theorem Lexeme.KeptAs.refl {l : Lexeme} (hl : l.isBad = false) : l.KeptAs l := by
  cases l with
  | token kind text => exact KeepsForm.refl _
  | layout text => exact Iff.rfl
  | bad text => cases hl

/-- **One lexeme of a relaid text.** -/
theorem Relaid.step {rest : List Char} (h : Relaid false (l.text ++ rest) y)
    (hs : l.StandsBefore rest) (hg : l.isBad = false) (hb : l.isBlank = false) :
    ∃ l' y', y = l'.text ++ y' ∧ l'.StandsBefore y' ∧ l'.isBad = false ∧ Relaid false rest y' ∧
      l.KeptAs l' := by
  by_cases hline : ∃ u, l = .layout ('/' :: '/' :: u)
  · obtain ⟨u, rfl⟩ := hline
    obtain ⟨hu, hr⟩ := lineComment_ends hs
    have hmark : ∀ c ∈ ['/', '/'].getLast?, isBlank c = false := by
      intro c hc
      rw [← Option.some.inj hc]
      decide
    obtain ⟨y₁, rfl, hline⟩ := h.split_line (a := ['/', '/']) (x := u ++ rest) (by decide) hmark
    obtain ⟨u', y', rfl, hu', hr', hrest⟩ := hline.split_toEnd hu hr
    refine ⟨.layout ('/' :: '/' :: u'), y', rfl, lineComment_stands hu' hr', rfl, hrest, ?_⟩
    show '\n' ∈ '/' :: '/' :: u' ↔ '\n' ∈ '/' :: '/' :: u
    simp [hu, hu']
  by_cases hn : '\n' ∈ l.text
  · rcases hs.newline_cases hg hn with rfl | ⟨e, m, rfl, hm⟩
    · cases hb
    · rw [Enclosed.make_text, List.append_assoc] at h
      obtain ⟨hne, hstart⟩ := e.start_graphic
      have hnl : '\n' ∉ e.start := fun hmem => absurd (hstart _ hmem) (by decide)
      obtain ⟨y₁, rfl, hinner⟩ := h.split_line hnl fun c hc => hstart c (List.mem_of_getLast? hc)
      obtain ⟨m', y', rfl, hm', hgraphic, hends, hrest⟩ := hinner.closesAs_enclosed hm
      refine ⟨e.make (e.start ++ m'), y', by simp, Enclosed.stands hm' y', e.make_good _, hrest, ?_⟩
      rw [Enclosed.make_text] at hn
      have hform : ∀ k : Kind, KeepsForm (k, String.ofList (e.start ++ m))
          (k, String.ofList (e.start ++ m')) := by
        refine fun k => ⟨rfl, fun hno => absurd ?_ hno, ?_⟩
        · simpa using hn
        · simpa [graphic] using hgraphic
      cases e with
      | comment =>
        show '\n' ∈ Enclosed.comment.start ++ m' ↔ '\n' ∈ Enclosed.comment.start ++ m
        rw [List.mem_append, List.mem_append, hends rfl]
      | raw | string | rune => exact hform _
  · have hfinal := hs.final hg hb fun text hl hpre => hline (by
      obtain ⟨u, rfl⟩ := hpre
      exact ⟨u, hl⟩)
    obtain ⟨y', rfl, hrest⟩ := h.split_line hn hfinal
    refine ⟨l, y', rfl, ?_, hg, hrest, .refl hg⟩
    obtain ⟨u, r, s, rfl, rfl, ⟨rfl, rfl⟩ | ⟨hnew, hmark⟩⟩ := hrest.split_change
    · exact hs
    · obtain ⟨v, rfl⟩ := List.head?_eq_some_iff.1 hnew
      refine hs.before_boundary hg (fun hu => ?_) rfl v
      subst hu
      exact (settled_or_comment hs hg hmark).resolve_right hline

/-- **Relaid text has the lexemes of the text**, but for layout around line ends. -/
theorem Relaid.respaces (h : Relaid front x y) (hg : ∀ l ∈ lexemes x, l.isBad = false) :
    Respaces front x y := by
  induction hn : x.length + y.length using Nat.strong_induction_on generalizing front x y with
  | h n ih =>
  subst hn
  have hblank : ∀ {c : Char} {x : List Char}, isBlank c = true →
      (∀ l ∈ lexemes (c :: x), l.isBad = false) →
      lexemes (c :: x) = .layout [c] :: lexemes x ∧ ∀ l ∈ lexemes x, l.isBad = false := by
    intro c x hc hg
    have hl := lexemes_blank (layout_of_good hc hg) x
    rw [hl] at hg
    exact ⟨hl, (List.forall_mem_cons.1 hg).2⟩
  -- A blank is a lexeme of its own and can come or go alone. Of anything else the whole lexeme is
  -- taken, which is why the induction is on the lengths and not on the relation.
  cases h with
  | nil =>
    rw [lexemes_nil] at hg
    exact ⟨by rwa [lexemes_nil], by rw [lexemes_nil]; exact .nil⟩
  | @newline _ x y h =>
    obtain ⟨hl, hg⟩ := hblank isBlank_newline hg
    have hrest := ih _ (by simp; omega) h hg rfl
    have hl' := lexemes_blank (Or.inl rfl) y
    refine ⟨?_, ?_⟩
    · rw [hl']
      exact List.forall_mem_cons.2 ⟨rfl, hrest.good⟩
    · rw [hl, hl']
      exact .newline hrest.lexemes
  | trailing hb hn h =>
    obtain ⟨hl, hg⟩ := hblank hb hg
    exact .left (fun _ => hn) hl (ih _ (by simp) h hg rfl)
  | unindent hi h =>
    obtain ⟨hl, hg⟩ := hblank (isBlank_of_isIndent hi) hg
    exact .left (by simp) hl (ih _ (by simp) h hg rfl)
  | leaveOut hb _ h =>
    obtain ⟨hl, hg⟩ := hblank hb hg
    exact .left (by simp) hl (ih _ (by simp) h hg rfl)
  | indent hi h =>
    refine .right ?_ (lexemes_blank (Or.inr (isLayoutBlank_of_isIndent hi)) _) ?_
    · rintro rfl
      cases hi
    · exact ih _ (by simp) h hg rfl
  | @same _ c x y hc h =>
    by_cases hb : isBlank c = true
    · have hlayout := layout_of_good hb hg
      obtain ⟨hl, hg⟩ := hblank hb hg
      refine .same (.refl rfl) rfl hl (lexemes_blank hlayout y) ?_
      exact ih _ (by simp; omega) h hg rfl
    · have happ := next_append c x
      generalize hnext : next c x = p at happ
      obtain ⟨l, rest⟩ := p
      have happ : l.text ++ rest = c :: x := happ
      have hs : l.StandsBefore rest := ⟨c, x, happ, hnext⟩
      have hlexemes : lexemes (c :: x) = l :: lexemes rest := by
        rw [← happ]
        exact lexemes_of_standsBefore hs
      rw [hlexemes] at hg
      obtain ⟨hl, hg⟩ := List.forall_mem_cons.1 hg
      have hnot : l.isBlank = false := by
        refine Bool.eq_false_iff.2 fun h => hb ?_
        unfold Lexeme.isBlank at h
        split at h
        · rwa [← (List.cons.inj happ).1]
        · cases h
      have h : Relaid false (l.text ++ rest) (c :: y) := by
        rw [happ]
        exact .same hc h
      obtain ⟨l', y', hy, hs', hl', hrest, hform⟩ := h.step hs hl hnot
      have hlexemes' : lexemes (c :: y) = l' :: lexemes y' := by
        rw [hy]
        exact lexemes_of_standsBefore hs'
      have hlength : rest.length + y'.length < (c :: x).length + (c :: y).length := by
        have hpos := List.length_pos_of_ne_nil hs.text_ne_nil
        rw [← happ, hy, List.length_append, List.length_append]
        omega
      exact .same hform hl' hlexemes hlexemes' (ih _ hlength hrest hg rfl)

/-- **Relaid text has the tokens of the text**, but for the blanks in literals over several lines. -/
theorem Relaid.respells (h : Relaid front x y) (hg : ∀ l ∈ lexemes x, l.isBad = false) :
    Respells x y :=
  ⟨(h.respaces hg).good, (h.respaces hg).lexemes.forms⟩

end Respaces

end Understudy.Source

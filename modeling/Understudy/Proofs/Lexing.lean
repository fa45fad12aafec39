import Mathlib
import Understudy.Source.Token

/-!
# The lexemes of composed texts

Printed source is put together from pieces: a name, a bracket, the text of a type. What the
tokenizer makes of the whole is known from the pieces only if no lexeme reaches over the end of
its piece, and the tokenizer is greedy, so every piece needs a reason.

The reason is one relation. `Lexeme.StandsBefore l rest` says that a text which begins with the
characters of `l` and goes on with `rest` has `l` for its first lexeme. A bracket stands before
anything, a word only before a character that no word goes on with, a star before anything but an
equals sign. `StandBefore` is the same for a list of lexemes, and one fact makes it useful:

> **lexemes that stand are the lexemes of their text** (`lexemes_spell_append`).

Everything that is said about the tokens of a printed text is said about its list of lexemes, and
`StandBefore` is the price of going from one to the other.
-/

set_option autoImplicit false

namespace Understudy.Source

open Text

@[simp] theorem Lexeme.text_layout (text : List Char) : (Lexeme.layout text).text = text := rfl

@[simp] theorem Lexeme.text_token (kind : Kind) (text : List Char) :
    (Lexeme.token kind text).text = text := rfl

/-- Whether characters are not what they should be. -/
def Lexeme.isBad : Lexeme → Bool
  | .bad _ => true
  | _ => false

/-! ## Taking a text apart -/

/-- The lexemes of a text from left to right. -/
def lexemes : List Char → List Lexeme
  | [] => []
  | c :: cs => (next c cs).1 :: lexemes (next c cs).2
termination_by cs => cs.length
decreasing_by exact next_length_lt c cs

/-- The characters of some lexemes. -/
def spellLexemes (ls : List Lexeme) : List Char := ls.flatMap Lexeme.text

@[simp] theorem spellLexemes_nil : spellLexemes [] = [] := rfl

@[simp] theorem spellLexemes_cons (l : Lexeme) (ls : List Lexeme) :
    spellLexemes (l :: ls) = l.text ++ spellLexemes ls := by
  simp [spellLexemes]

@[simp] theorem spellLexemes_append (ls ms : List Lexeme) :
    spellLexemes (ls ++ ms) = spellLexemes ls ++ spellLexemes ms := by
  simp [spellLexemes]

@[simp] theorem lexemes_nil : lexemes [] = [] := by rw [lexemes]

/-- A text is spelled by its lexemes. -/
theorem spellLexemes_lexemes (cs : List Char) : spellLexemes (lexemes cs) = cs := by
  fun_induction lexemes cs with
  | case1 => rfl
  | case2 c cs ih =>
    rw [spellLexemes_cons, ih]
    exact next_append c cs

/-- What holds of each of some lists, and goes on to hold when one of them is put in front with a
separator, holds of the lists with the separator between them. -/
theorem intercalate_induction {α : Type} {P : List α → Prop} {sep : List α} {xss : List (List α)}
    (hnil : xss = [] → P []) (hlast : ∀ xs ∈ xss, P xs)
    (hcons : ∀ xs ∈ xss, ∀ ys, P ys → P (xs ++ (sep ++ ys))) : P (List.intercalate sep xss) := by
  induction xss with
  | nil => exact hnil rfl
  | cons xs xss ih =>
    obtain ⟨hfirst, hrest⟩ := List.forall_mem_cons.1 hlast
    obtain ⟨hfront, hcons⟩ := List.forall_mem_cons.1 hcons
    cases xss with
    | nil => simpa using hfirst
    | cons ys yss =>
      rw [List.intercalate_cons_cons, List.append_assoc]
      exact hfront _ (ih (by simp) hrest hcons)

/-! ## Lexemes that stand -/

/-- Whether a text that begins with the characters of `l` and goes on with `rest` has `l` for its
first lexeme. -/
def Lexeme.StandsBefore (l : Lexeme) (rest : List Char) : Prop :=
  ∃ c cs, l.text ++ rest = c :: cs ∧ next c cs = (l, rest)

/-- Whether each of some lexemes stands before the ones after it and `rest`. -/
def StandBefore : List Lexeme → List Char → Prop
  | [], _ => True
  | l :: ls, rest => l.StandsBefore (spellLexemes ls ++ rest) ∧ StandBefore ls rest

@[simp] theorem standBefore_nil (rest : List Char) : StandBefore [] rest := trivial

@[simp] theorem standBefore_cons (l : Lexeme) (ls : List Lexeme) (rest : List Char) :
    StandBefore (l :: ls) rest ↔
      l.StandsBefore (spellLexemes ls ++ rest) ∧ StandBefore ls rest := Iff.rfl

theorem standBefore_append {ls ms : List Lexeme} {rest : List Char} :
    StandBefore (ls ++ ms) rest ↔
      StandBefore ls (spellLexemes ms ++ rest) ∧ StandBefore ms rest := by
  induction ls with
  | nil => simp
  | cons l ls ih => simp [ih, and_assoc]

theorem lexemes_of_standsBefore {l : Lexeme} {rest : List Char} (h : l.StandsBefore rest) :
    lexemes (l.text ++ rest) = l :: lexemes rest := by
  obtain ⟨c, cs, ht, hn⟩ := h
  rw [ht, lexemes, hn]

/-- **Lexemes that stand are the lexemes of their text.** -/
theorem lexemes_spell_append {ls : List Lexeme} {rest : List Char} (h : StandBefore ls rest) :
    lexemes (spellLexemes ls ++ rest) = ls ++ lexemes rest := by
  induction ls with
  | nil => rfl
  | cons l ls ih =>
    rw [spellLexemes_cons, List.append_assoc, lexemes_of_standsBefore h.1, ih h.2]
    rfl

/-- The lexemes of a text stand in it. -/
theorem standBefore_lexemes (cs : List Char) : StandBefore (lexemes cs) [] := by
  fun_induction lexemes cs with
  | case1 => trivial
  | case2 c cs ih =>
    refine ⟨⟨c, cs, ?_, ?_⟩, ih⟩
    · rw [List.append_nil, spellLexemes_lexemes]
      exact next_append c cs
    · rw [List.append_nil, spellLexemes_lexemes]

/-! ## Signs and blanks

Brackets and separators begin no longer sign, and a blank is a lexeme of its own, so these stand
before anything. The other signs are given with what may not follow them. -/

/-- Whether a lexeme stands before anything. -/
def Lexeme.isFree : Lexeme → Bool
  | .layout [c] => c == '\n' || isLayoutBlank c
  | .token kind text =>
    [(Kind.lparen, ['(']), (.rparen, [')']), (.lbrack, ['[']), (.rbrack, [']']),
      (.lbrace, ['{']), (.rbrace, ['}']), (.comma, [',']), (.semi, [';']), (.tilde, ['~']),
      (.arrow, ['<', '-']), (.ellipsis, ['.', '.', '.'])].contains (kind, text)
  | _ => false

theorem Lexeme.standsBefore_of_isFree {l : Lexeme} (h : l.isFree = true) (rest : List Char) :
    l.StandsBefore rest := by
  unfold isFree at h
  split at h
  · next c =>
    refine ⟨c, rest, rfl, ?_⟩
    unfold next
    rw [if_pos h]
  · next kind text =>
    simp only [List.contains_eq_mem, List.mem_cons, Prod.mk.injEq, List.not_mem_nil, or_false,
      decide_eq_true_eq] at h
    rcases h with ⟨rfl, rfl⟩ | ⟨rfl, rfl⟩ | ⟨rfl, rfl⟩ | ⟨rfl, rfl⟩ | ⟨rfl, rfl⟩ | ⟨rfl, rfl⟩ |
      ⟨rfl, rfl⟩ | ⟨rfl, rfl⟩ | ⟨rfl, rfl⟩ | ⟨rfl, rfl⟩ | ⟨rfl, rfl⟩ <;>
    exact ⟨_, _, rfl, rfl⟩
  · exact absurd h Bool.false_ne_true

theorem star_stands {rest : List Char} (h : rest.head? ≠ some '=') :
    (Lexeme.token .star ['*']).StandsBefore rest := by
  cases rest with
  | nil => exact ⟨_, _, rfl, rfl⟩
  | cons c rest =>
    have hc : ('=' == c) = false := by
      simp only [List.head?_cons, ne_eq, Option.some.injEq] at h
      simpa using Ne.symm h
    refine ⟨'*', c :: rest, rfl, ?_⟩
    show operatorOrBad '*' (c :: rest) = _
    simp [operatorOrBad, operator?, Kind.operators, List.isPrefixOf?, hc]

theorem assign_stands {rest : List Char} (h : rest.head? ≠ some '=') :
    (Lexeme.token .assign ['=']).StandsBefore rest := by
  cases rest with
  | nil => exact ⟨_, _, rfl, rfl⟩
  | cons c rest =>
    have hc : ('=' == c) = false := by
      simp only [List.head?_cons, ne_eq, Option.some.injEq] at h
      simpa using Ne.symm h
    refine ⟨'=', c :: rest, rfl, ?_⟩
    show operatorOrBad '=' (c :: rest) = _
    simp [operatorOrBad, operator?, Kind.operators, List.isPrefixOf?, hc]

/-- A bar with a blank behind it. -/
theorem pipe_stands (rest : List Char) : (Lexeme.token .pipe ['|']).StandsBefore (' ' :: rest) :=
  ⟨_, _, rfl, rfl⟩

/-- A point that begins neither a number nor an ellipsis. -/
theorem dot_stands {c : Char} {rest : List Char} (hd : c.isDigit = false) (hc : c ≠ '.') :
    (Lexeme.token .dot ['.']).StandsBefore (c :: rest) := by
  have hc' : ('.' == c) = false := by simpa using Ne.symm hc
  refine ⟨'.', c :: rest, rfl, ?_⟩
  show (if c.isDigit then number ['.', c] c rest else operatorOrBad '.' (c :: rest)) = _
  rw [hd, if_neg Bool.false_ne_true]
  simp [operatorOrBad, operator?, Kind.operators, List.isPrefixOf?, hc']

/-! ## Words -/

/-- Whether a text is spelled like a word, be it a name or a keyword. -/
def isWord (s : String) : Bool :=
  match s.toList with
  | [] => false
  | c :: cs => startsWord c && cs.all continuesWord

/-- Whether no word goes on in front of `rest`. A byte order mark ends every word, but a keyword
before one is no keyword. -/
def EndsWord (rest : List Char) : Prop :=
  ∀ c, rest.head? = some c → continuesWord c = false ∧ c ≠ '\ufeff'

theorem endsWord_nil : EndsWord [] := by
  intro c h
  simp at h

theorem endsWord_cons {c : Char} {rest : List Char} :
    EndsWord (c :: rest) ↔ continuesWord c = false ∧ c ≠ '\ufeff' := by
  simp [EndsWord]

theorem isWord_iff {s : String} : isWord s = true ↔
    ∃ c cs, s.toList = c :: cs ∧ startsWord c = true ∧ ∀ d ∈ cs, continuesWord d = true := by
  unfold isWord
  cases s.toList with
  | nil => simp
  | cons c cs =>
    constructor
    · intro h
      simp only [Bool.and_eq_true, List.all_eq_true] at h
      exact ⟨c, cs, rfl, h⟩
    · rintro ⟨d, ds, he, h⟩
      obtain ⟨rfl, rfl⟩ := List.cons.inj he
      simpa using h

/-- Nothing that ends a word begins one: the class of letters has no blank and no sign in it. -/
theorem startsWord_ne {c : Char} (h : startsWord c = true) {d : Char}
    (hd : startsWord d = false) : c ≠ d := by
  intro he
  rw [he, hd] at h
  exact Bool.false_ne_true h

theorem startsWord_not_layout {c : Char} (h : startsWord c = true) :
    (c == '\n' || isLayoutBlank c) = false := by
  have hn : c ≠ '\n' := startsWord_ne h (by decide +kernel)
  have h₁ : c ≠ ' ' := startsWord_ne h (by decide +kernel)
  have h₂ : c ≠ '\t' := startsWord_ne h (by decide +kernel)
  have h₃ : c ≠ '\x0c' := startsWord_ne h (by decide +kernel)
  have h₄ : c ≠ '\r' := startsWord_ne h (by decide +kernel)
  have h₅ : c ≠ '\ufeff' := startsWord_ne h (by decide +kernel)
  simp [isLayoutBlank, hn, h₁, h₂, h₃, h₄, h₅]

theorem startsWord_not_digit {c : Char} (h : startsWord c = true) : c.isDigit = false := by
  cases hd : c.isDigit with
  | false => rfl
  | true =>
    -- The table of letters begins above the digits.
    have hle : c.toNat ≤ 57 := by
      simp only [Char.isDigit, Bool.and_eq_true, decide_eq_true_eq] at hd
      exact hd.2
    have hu : c ≠ '_' := by
      rintro rfl
      exact absurd hle (by decide)
    have hl : isLetter c = false := by
      unfold isLetter letters
      rw [Ranges.has, if_pos (by omega)]
    simp [startsWord, hu, hl] at h

/-- What `next` does with a word, whatever stands behind it. -/
theorem next_word {c : Char} (cs : List Char) (h : startsWord c = true) :
    next c cs = word c cs := by
  unfold next
  rw [if_neg (by rw [startsWord_not_layout h]; exact Bool.false_ne_true), if_pos h]

/-- The lexeme of a word: a keyword if it is spelled like one, otherwise a name. -/
def Lexeme.ofWord (s : String) : Lexeme := .token (Kind.ofWord s) s.toList

@[simp] theorem Lexeme.ofWord_text (s : String) : (Lexeme.ofWord s).text = s.toList := rfl

theorem takeWhile_append_stop {p : Char → Bool} {cs rest : List Char}
    (hin : ∀ c ∈ cs, p c = true) (hout : ∀ c, rest.head? = some c → p c = false) :
    (cs ++ rest).takeWhile p = cs ∧ (cs ++ rest).dropWhile p = rest := by
  rw [List.takeWhile_append_of_pos hin, List.dropWhile_append_of_pos hin]
  cases rest with
  | nil => simp
  | cons c rest => simp [hout c rfl]

/-- **A word stands before everything that ends it.** -/
theorem word_stands {s : String} (hs : isWord s = true) {rest : List Char} (h : EndsWord rest) :
    (Lexeme.ofWord s).StandsBefore rest := by
  obtain ⟨c, cs, ht, hc, hcs⟩ := isWord_iff.1 hs
  refine ⟨c, cs ++ rest, by rw [Lexeme.ofWord_text, ht]; rfl, ?_⟩
  obtain ⟨htake, hdrop⟩ := takeWhile_append_stop hcs fun d hd => (h d hd).1
  have hmark : (rest.head? == some '\ufeff') = false := by
    cases hr : rest.head? with
    | none => rfl
    | some d => simpa using (h d hr).2
  have hof : String.ofList (c :: cs) = s := by rw [← ht, String.ofList_toList]
  rw [next_word _ hc]
  simp [word, htake, hdrop, hmark, Lexeme.ofWord, ht, hof]

/-! ## Texts of one token -/

/-- Whether a text is exactly one token. -/
def IsToken (kind : Kind) (s : String) : Prop := lexemes s.toList = [.token kind s.toList]

instance (kind : Kind) (s : String) : Decidable (IsToken kind s) :=
  inferInstanceAs (Decidable (lexemes s.toList = [.token kind s.toList]))

end Understudy.Source

import Understudy.Source.Kind
import Understudy.Text.Letter

/-!
# Lexemes

A source text is a sequence of lexemes: tokens, and the layout between them (blanks, line ends
and comments). `next` takes the first lexeme off a text. It always takes at least one character,
and takes as many as the class of the lexeme allows, so the lexemes of a text are determined
from left to right and put together give the text again.
-/

set_option autoImplicit false

namespace Understudy.Source

open Text

/-- The first part of a source text. -/
inductive Lexeme where
  /-- Blanks, a line end or a comment. -/
  | layout (text : List Char)
  | token (kind : Kind) (text : List Char)
  /-- Characters that begin no token, or a token that does not end. -/
  | bad (text : List Char)
  deriving Repr, DecidableEq

/-- The characters of a lexeme. -/
def Lexeme.text : Lexeme → List Char
  | .layout text | .token _ text | .bad text => text

/-! ## Character classes -/

/-- The blanks between tokens. A byte order mark counts as one wherever it stands. -/
def isLayoutBlank (c : Char) : Bool :=
  c == ' ' || c == '\t' || c == '\x0c' || c == '\r' || c == '\ufeff'

/-- Whether an identifier can begin with `c`. -/
def startsWord (c : Char) : Bool := c == '_' || isLetter c

/-- Whether an identifier can go on with `c`. -/
def continuesWord (c : Char) : Bool := c == '_' || isLetter c || isDecimalDigit c

/-! ## The inner part of each class

Each function gets the text after the opening characters and splits off what still belongs to
the lexeme. -/

/-- The end of a block comment, closing mark included. -/
def blockCommentTail? : List Char → Option (List Char × List Char)
  | '*' :: '/' :: cs => some (['*', '/'], cs)
  | c :: cs => (blockCommentTail? cs).map fun (taken, rest) => (c :: taken, rest)
  | [] => none

/-- The end of a string or rune literal: the next `close` that no backslash precedes, on the
same line. A backslash takes the character after it along, a line end too. -/
def quotedTail? (close : Char) : List Char → Option (List Char × List Char)
  | [] => none
  | '\\' :: c :: cs => (quotedTail? close cs).map fun (taken, rest) => ('\\' :: c :: taken, rest)
  | c :: cs =>
    if c == '\\' || c == '\n' then none
    else if c == close then some ([c], cs)
    else (quotedTail? close cs).map fun (taken, rest) => (c :: taken, rest)

/-- The end of a raw string literal: the next back quote. -/
def rawTail? : List Char → Option (List Char × List Char)
  | [] => none
  | c :: cs =>
    if c == '\x60' then some ([c], cs)
    else (rawTail? cs).map fun (taken, rest) => (c :: taken, rest)

/-- Whether a number whose last character is `prev` goes on with the sign `c`: only directly
after the mark of an exponent, which is `p` for a hexadecimal number and `e` for any other. -/
def isExponentSign (hex : Bool) (prev c : Char) : Bool :=
  (c == '+' || c == '-') &&
    if hex then prev == 'p' || prev == 'P' else prev == 'e' || prev == 'E'

/-- The rest of a number: letters, digits, underscores and points in any order, and the sign of
an exponent. -/
def numberTail (hex : Bool) : Char → List Char → List Char × List Char
  | _, [] => ([], [])
  | prev, c :: cs =>
    if c.isAlphanum || c == '_' || c == '.' || isExponentSign hex prev c then
      let (taken, rest) := numberTail hex c cs
      (c :: taken, rest)
    else ([], c :: cs)

/-! ## The first lexeme -/

/-- A literal that begins with `c` and goes on to its closing mark. Without one, the opening
character alone is at fault. -/
def literal (kind : Kind) (c : Char) (cs : List Char) (tail : Option (List Char × List Char)) :
    Lexeme × List Char :=
  match tail with
  | some (taken, rest) => (.token kind (c :: taken), rest)
  | none => (.bad [c], cs)

/-- The operator or bracket that a text begins with. -/
def operator? (cs : List Char) : Option (Lexeme × List Char) :=
  Kind.operators.findSome? fun (spelling, kind) =>
    (spelling.toList.isPrefixOf? cs).map fun rest => (.token kind spelling.toList, rest)

/-- A number that begins with `start`, whose last character is `last`. -/
def number (start : List Char) (last : Char) (cs : List Char) : Lexeme × List Char :=
  let hex := start == ['0'] && (cs.head? == some 'x' || cs.head? == some 'X')
  let (taken, rest) := numberTail hex last cs
  (.token .number (start ++ taken), rest)

/-- A word, keyword or identifier, that begins with `c`. A word directly before a byte order mark
is an identifier even if it is spelled like a keyword. -/
def word (c : Char) (cs : List Char) : Lexeme × List Char :=
  let text := c :: cs.takeWhile continuesWord
  let rest := cs.dropWhile continuesWord
  let kind := if rest.head? == some '\ufeff' then .ident else Kind.ofWord (String.ofList text)
  (.token kind text, rest)

/-- The operator or bracket that a text beginning with `c` begins with, or else a fault. -/
def operatorOrBad (c : Char) (cs : List Char) : Lexeme × List Char :=
  (operator? (c :: cs)).getD (.bad [c], cs)

/-- The first lexeme of a text that begins with `c`, and the text after it. -/
def next (c : Char) (cs : List Char) : Lexeme × List Char :=
  if c == '\n' || isLayoutBlank c then (.layout [c], cs)
  else if startsWord c then word c cs
  else if c.isDigit then number [c] c cs
  else
    match c, cs with
    | '/', '/' :: cs =>
      (.layout ('/' :: '/' :: cs.takeWhile (· != '\n')), cs.dropWhile (· != '\n'))
    | '/', '*' :: cs =>
      match blockCommentTail? cs with
      | some (taken, rest) => (.layout ('/' :: '*' :: taken), rest)
      | none => (.bad ('/' :: '*' :: cs), [])
    | '"', cs => literal .string '"' cs (quotedTail? '"' cs)
    | '\'', cs => literal .rune '\'' cs (quotedTail? '\'' cs)
    | '\x60', cs => literal .rawString '\x60' cs (rawTail? cs)
    | '.', d :: ds => if d.isDigit then number ['.', d] d ds else operatorOrBad '.' (d :: ds)
    | c, cs => operatorOrBad c cs

/-! ## Nothing is lost

Each function above only splits its text in two. -/

theorem blockCommentTail?_append {cs taken rest : List Char}
    (h : blockCommentTail? cs = some (taken, rest)) : taken ++ rest = cs := by
  fun_induction blockCommentTail? cs generalizing taken rest with
  | case1 cs => cases h; rfl
  | case2 c cs _ ih =>
    obtain ⟨⟨t, r⟩, ht, he⟩ := Option.map_eq_some_iff.1 h
    cases he
    simp [ih ht]
  | case3 => simp at h

theorem quotedTail?_append {close : Char} {cs taken rest : List Char}
    (h : quotedTail? close cs = some (taken, rest)) : taken ++ rest = cs := by
  fun_induction quotedTail? close cs generalizing taken rest with
  | case1 => simp at h
  | case2 c cs ih =>
    obtain ⟨⟨t, r⟩, ht, he⟩ := Option.map_eq_some_iff.1 h
    cases he
    simp [ih ht]
  | case3 => simp at h
  | case4 c cs _ _ _ => cases h; simp_all
  | case5 c cs _ _ _ ih =>
    obtain ⟨⟨t, r⟩, ht, he⟩ := Option.map_eq_some_iff.1 h
    cases he
    simp [ih ht]

theorem rawTail?_append {cs taken rest : List Char}
    (h : rawTail? cs = some (taken, rest)) : taken ++ rest = cs := by
  fun_induction rawTail? cs generalizing taken rest with
  | case1 => simp at h
  | case2 c cs _ => cases h; rfl
  | case3 c cs _ ih =>
    obtain ⟨⟨t, r⟩, ht, he⟩ := Option.map_eq_some_iff.1 h
    cases he
    simp [ih ht]

theorem numberTail_append (hex : Bool) (prev : Char) (cs : List Char) :
    (numberTail hex prev cs).1 ++ (numberTail hex prev cs).2 = cs := by
  fun_induction numberTail hex prev cs with
  | case1 => rfl
  | case2 prev c cs _ taken rest h ih => simp_all
  | case3 => rfl

theorem number_append (start : List Char) (last : Char) (cs : List Char) :
    (number start last cs).1.text ++ (number start last cs).2 = start ++ cs := by
  simp [number, Lexeme.text, numberTail_append]

theorem word_append (c : Char) (cs : List Char) :
    (word c cs).1.text ++ (word c cs).2 = c :: cs := by
  simp [word, Lexeme.text]

theorem literal_append {kind : Kind} {c : Char} {cs : List Char}
    {tail : Option (List Char × List Char)}
    (h : ∀ taken rest, tail = some (taken, rest) → taken ++ rest = cs) :
    (literal kind c cs tail).1.text ++ (literal kind c cs tail).2 = c :: cs := by
  cases tail with
  | none => simp [literal, Lexeme.text]
  | some p => simp [literal, Lexeme.text, h p.1 p.2 rfl]

theorem isPrefixOf?_append {start cs rest : List Char}
    (h : start.isPrefixOf? cs = some rest) : start ++ rest = cs := by
  induction start generalizing cs with
  | nil =>
    cases h
    rfl
  | cons c start ih =>
    cases cs with
    | nil => cases h
    | cons d cs =>
      have h : (if c == d then start.isPrefixOf? cs else none) = some rest := h
      split at h
      · next hc => simp [ih h, eq_of_beq hc]
      · simp at h

/-- An operator is one of the spellings of the table, and the text after it follows. -/
theorem operator?_eq_some {cs rest : List Char} {lexeme : Lexeme}
    (h : operator? cs = some (lexeme, rest)) :
    ∃ p ∈ Kind.operators, lexeme = .token p.2 p.1.toList ∧ p.1.toList ++ rest = cs := by
  obtain ⟨p, hp, he⟩ := List.exists_of_findSome?_eq_some h
  obtain ⟨r, hr, he⟩ := Option.map_eq_some_iff.1 he
  cases he
  exact ⟨p, hp, rfl, isPrefixOf?_append hr⟩

theorem operatorOrBad_append (c : Char) (cs : List Char) :
    (operatorOrBad c cs).1.text ++ (operatorOrBad c cs).2 = c :: cs := by
  cases h : operator? (c :: cs) with
  | none => simp [operatorOrBad, h, Lexeme.text]
  | some p =>
    obtain ⟨q, -, hl, ha⟩ := operator?_eq_some h
    simp [operatorOrBad, h, hl, Lexeme.text, ha]

/-- **A lexeme and the text after it make up the text.** -/
theorem next_append (c : Char) (cs : List Char) :
    (next c cs).1.text ++ (next c cs).2 = c :: cs := by
  unfold next
  split
  · rfl
  split
  · exact word_append c cs
  split
  · exact number_append [c] c cs
  split
  · simp [Lexeme.text]
  · split
    · next h => simp [Lexeme.text, blockCommentTail?_append h]
    · simp [Lexeme.text]
  · exact literal_append fun _ _ h => quotedTail?_append h
  · exact literal_append fun _ _ h => quotedTail?_append h
  · exact literal_append fun _ _ h => rawTail?_append h
  · split
    · exact number_append _ _ _
    · exact operatorOrBad_append _ _
  · exact operatorOrBad_append _ _

theorem operatorOrBad_text_ne_nil (c : Char) (cs : List Char) :
    (operatorOrBad c cs).1.text ≠ [] := by
  cases h : operator? (c :: cs) with
  | none => simp [operatorOrBad, h, Lexeme.text]
  | some p =>
    obtain ⟨q, hq, hl, -⟩ := operator?_eq_some h
    have : ∀ q ∈ Kind.operators, q.1.toList ≠ [] := by decide
    simpa [operatorOrBad, h, hl, Lexeme.text] using this q hq

theorem literal_text_ne_nil (kind : Kind) (c : Char) (cs : List Char)
    (tail : Option (List Char × List Char)) : (literal kind c cs tail).1.text ≠ [] := by
  cases tail <;> simp [literal, Lexeme.text]

/-- **A lexeme has at least one character.** -/
theorem next_text_ne_nil (c : Char) (cs : List Char) : (next c cs).1.text ≠ [] := by
  unfold next
  split
  · simp [Lexeme.text]
  split
  · simp [word, Lexeme.text]
  split
  · simp [number, Lexeme.text]
  split
  · simp [Lexeme.text]
  · split <;> simp [Lexeme.text]
  · exact literal_text_ne_nil _ _ _ _
  · exact literal_text_ne_nil _ _ _ _
  · exact literal_text_ne_nil _ _ _ _
  · split
    · simp [number, Lexeme.text]
    · exact operatorOrBad_text_ne_nil _ _
  · exact operatorOrBad_text_ne_nil _ _

/-- Taking a lexeme off shortens the text. -/
theorem next_length_lt (c : Char) (cs : List Char) :
    (next c cs).2.length < (c :: cs).length := by
  have h := congrArg List.length (next_append c cs)
  have h' := List.length_pos_iff.2 (next_text_ne_nil c cs)
  rw [List.length_append] at h
  omega

end Understudy.Source

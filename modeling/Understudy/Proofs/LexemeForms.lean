import Understudy.Proofs.Lexing

/-!
# Forms of lexemes

The first lexeme of a text is a blank, a word, a number, a comment to the end of the line, a block
comment or a literal, or the longest sign that the text begins with. Which of these it is shows in
the first two characters, and

> **the scanner takes a lexeme if and only if one of the forms has it** (`next_eq_iff`).

So whatever is said of all lexemes is said of one form at a time. Block comments and the three sorts
of literals are one form: they go on to their own end mark, over whatever stands in between, and what
follows the mark does not matter to them (`Enclosed.tail?_rest`).
-/

set_option autoImplicit false

namespace Understudy.Source

open Text

/-! ## Tails up to an end mark -/

theorem blockCommentTail?_ne_nil {cs taken rest : List Char}
    (h : blockCommentTail? cs = some (taken, rest)) : taken ≠ [] := by
  unfold blockCommentTail? at h
  split at h
  · cases h
    simp
  · obtain ⟨⟨t, r⟩, ht, he⟩ := Option.map_eq_some_iff.1 h
    cases he
    simp
  · simp at h

theorem blockCommentTail?_rest {cs taken rest : List Char}
    (h : blockCommentTail? cs = some (taken, rest)) (new : List Char) :
    blockCommentTail? (taken ++ new) = some (taken, new) := by
  fun_induction blockCommentTail? cs generalizing taken rest with
  | case1 cs =>
    cases h
    rfl
  | case2 c cs hne ih =>
    obtain ⟨⟨t, r⟩, ht, he⟩ := Option.map_eq_some_iff.1 h
    cases he
    rw [List.cons_append, blockCommentTail?, ih ht]
    · rfl
    · -- The closing mark does not begin here, since it did not in the old text.
      intro cs' hc hcs'
      obtain ⟨a, u, rfl⟩ := List.exists_cons_of_ne_nil (blockCommentTail?_ne_nil ht)
      rw [← blockCommentTail?_append ht] at hne
      exact hne (u ++ rest) hc (by rw [(List.cons.inj hcs').1]; rfl)
  | case3 => simp at h

/-- A block comment ends at the first closing mark. -/
theorem blockCommentTail?_first {cs taken rest : List Char}
    (h : blockCommentTail? cs = some (taken, rest)) :
    ∃ text, taken = text ++ ['*', '/'] ∧ ¬ ['*', '/'] <:+: text ++ ['*'] := by
  fun_induction blockCommentTail? cs generalizing taken rest with
  | case1 cs =>
    cases h
    exact ⟨[], rfl, by decide⟩
  | case2 c cs hne ih =>
    obtain ⟨⟨t, r⟩, ht, he⟩ := Option.map_eq_some_iff.1 h
    cases he
    obtain ⟨text, rfl, hfirst⟩ := ih ht
    have happ := blockCommentTail?_append ht
    refine ⟨c :: text, rfl, fun hin => ?_⟩
    rcases List.infix_cons_iff.1 hin with hpre | hin
    · -- The mark would begin with `c`, and the comment would have ended there.
      obtain ⟨rfl, hslash⟩ := List.cons_prefix_cons.1 hpre
      cases text with
      | nil => simp at hslash
      | cons d text =>
        obtain ⟨rfl, -⟩ := List.cons_prefix_cons.1 hslash
        exact hne _ rfl happ.symm
    · exact hfirst hin
  | case3 => simp at h

theorem quotedTail?_cons {close c : Char} {cs : List Char} (hb : c ≠ '\\') (hn : c ≠ '\n') :
    quotedTail? close (c :: cs) =
      if c == close then some ([c], cs)
      else (quotedTail? close cs).map fun (taken, rest) => (c :: taken, rest) := by
  rw [quotedTail?]
  · simp [hb, hn]
  · exact fun _ _ hc _ => hb hc

theorem quotedTail?_rest {close : Char} {cs taken rest : List Char}
    (h : quotedTail? close cs = some (taken, rest)) (new : List Char) :
    quotedTail? close (taken ++ new) = some (taken, new) := by
  fun_induction quotedTail? close cs generalizing taken rest with
  | case1 => simp at h
  | case2 c cs ih =>
    obtain ⟨⟨t, r⟩, ht, he⟩ := Option.map_eq_some_iff.1 h
    cases he
    simp [quotedTail?, ih ht]
  | case3 => simp at h
  | case4 c cs _ hc hq =>
    cases h
    simp only [Bool.or_eq_true, beq_iff_eq, not_or] at hc
    rw [List.cons_append, quotedTail?_cons hc.1 hc.2, if_pos hq]
    rfl
  | case5 c cs _ hc hq ih =>
    obtain ⟨⟨t, r⟩, ht, he⟩ := Option.map_eq_some_iff.1 h
    cases he
    simp only [Bool.or_eq_true, beq_iff_eq, not_or] at hc
    rw [List.cons_append, quotedTail?_cons hc.1 hc.2, if_neg hq, ih ht]
    rfl

theorem quotedTail?_last {close : Char} {cs taken rest : List Char}
    (h : quotedTail? close cs = some (taken, rest)) : taken.getLast? = some close := by
  have hcons : ∀ {a : Char} {as : List Char}, as.getLast? = some close →
      (a :: as).getLast? = some close := by
    intro a as ha
    cases as with
    | nil => exact absurd ha (by simp)
    | cons b as => rwa [List.getLast?_cons_cons]
  fun_induction quotedTail? close cs generalizing taken rest with
  | case1 => simp at h
  | case2 c cs ih =>
    obtain ⟨⟨t, r⟩, ht, he⟩ := Option.map_eq_some_iff.1 h
    cases he
    exact hcons (hcons (ih ht))
  | case3 => simp at h
  | case4 c cs _ _ hc =>
    cases h
    simpa using hc
  | case5 c cs _ _ _ ih =>
    obtain ⟨⟨t, r⟩, ht, he⟩ := Option.map_eq_some_iff.1 h
    cases he
    exact hcons (ih ht)

theorem rawTail?_rest {cs taken rest : List Char} (h : rawTail? cs = some (taken, rest))
    (new : List Char) : rawTail? (taken ++ new) = some (taken, new) := by
  fun_induction rawTail? cs generalizing taken rest with
  | case1 => simp at h
  | case2 c cs hc =>
    cases h
    simp [rawTail?, hc]
  | case3 c cs hc ih =>
    obtain ⟨⟨t, r⟩, ht, he⟩ := Option.map_eq_some_iff.1 h
    cases he
    simp [rawTail?, hc, ih ht]

theorem rawTail?_last {cs taken rest : List Char} (h : rawTail? cs = some (taken, rest)) :
    taken.getLast? = some '\x60' := by
  fun_induction rawTail? cs generalizing taken rest with
  | case1 => simp at h
  | case2 c cs hc =>
    cases h
    simpa using hc
  | case3 c cs _ ih =>
    obtain ⟨⟨t, r⟩, ht, he⟩ := Option.map_eq_some_iff.1 h
    cases he
    have ih := ih ht
    cases t with
    | nil => exact absurd ih (by simp)
    | cons b t => rwa [List.getLast?_cons_cons]

/-! ## Lexemes with an end mark -/

/-- The forms of lexemes that go on to their own end mark, over line ends too. -/
inductive Enclosed where
  | comment
  | raw
  | string
  | rune

namespace Enclosed

/-- The characters that such a lexeme begins with. -/
def start : Enclosed → List Char
  | comment => ['/', '*']
  | raw => ['\x60']
  | string => ['"']
  | rune => ['\'']

/-- The rest of such a lexeme, end mark included, and what stands behind it. -/
def tail? : Enclosed → List Char → Option (List Char × List Char)
  | comment => blockCommentTail?
  | raw => rawTail?
  | string => quotedTail? '"'
  | rune => quotedTail? '\''

/-- The lexeme of some characters. -/
def make : Enclosed → List Char → Lexeme
  | comment => .layout
  | raw => .token .rawString
  | string => .token .string
  | rune => .token .rune

/-- Whether a text is the rest of such a lexeme, with nothing behind it. -/
def Closes (e : Enclosed) (m : List Char) : Prop := e.tail? m = some (m, [])

variable {e : Enclosed} {m : List Char}

@[simp] theorem make_text (e : Enclosed) (cs : List Char) : (e.make cs).text = cs := by
  cases e <;> rfl

theorem make_good (e : Enclosed) (cs : List Char) : (e.make cs).isBad = false := by
  cases e <;> rfl

theorem tail?_append {cs taken rest : List Char} (h : e.tail? cs = some (taken, rest)) :
    taken ++ rest = cs := by
  cases e with
  | comment => exact blockCommentTail?_append h
  | raw => exact rawTail?_append h
  | string | rune => exact quotedTail?_append h

/-- What follows the end mark does not matter. -/
theorem tail?_rest {cs taken rest : List Char} (h : e.tail? cs = some (taken, rest))
    (new : List Char) : e.tail? (taken ++ new) = some (taken, new) := by
  cases e with
  | comment => exact blockCommentTail?_rest h new
  | raw => exact rawTail?_rest h new
  | string | rune => exact quotedTail?_rest h new

theorem closes_of_tail? {cs taken rest : List Char} (h : e.tail? cs = some (taken, rest)) :
    e.Closes taken := by
  have hrest := tail?_rest h []
  rwa [List.append_nil] at hrest

theorem Closes.ne_nil (h : e.Closes m) : m ≠ [] := by
  rintro rfl
  cases e <;> cases h

/-- The last character of the end mark. -/
def mark : Enclosed → Char
  | comment => '/'
  | raw => '\x60'
  | string => '"'
  | rune => '\''

theorem Closes.last (h : e.Closes m) : (e.start ++ m).getLast? = some e.mark := by
  rw [List.getLast?_append_of_ne_nil _ h.ne_nil]
  cases e with
  | comment =>
    obtain ⟨text, rfl, -⟩ := blockCommentTail?_first h
    simp [mark]
  | raw => exact rawTail?_last h
  | string | rune => exact quotedTail?_last h

end Enclosed

/-! ## The forms -/

/-- Whether neither a comment nor a number begins with two characters. -/
def IsSignPair (c d : Char) : Prop := (c = '/' → d ≠ '/' ∧ d ≠ '*') ∧ (c = '.' → d.isDigit = false)

/-- Whether a text that begins with `c` and goes on with `cs` has the lexeme `l` first, where `rest`
is what stands behind it. -/
inductive IsFirst (c : Char) (cs : List Char) (l : Lexeme) (rest : List Char) : Prop
  | blank (hc : (c == '\n' || isLayoutBlank c) = true) (h : (.layout [c], cs) = (l, rest))
  | word (hc : startsWord c = true) (h : word c cs = (l, rest))
  | number (hc : c.isDigit = true) (h : number [c] c cs = (l, rest))
  | point {d : Char} {ds : List Char} (hc : c = '.') (hcs : cs = d :: ds) (hd : d.isDigit = true)
      (h : number ['.', d] d ds = (l, rest))
  | line {us : List Char} (hc : c = '/') (hcs : cs = '/' :: us)
      (h : (.layout ('/' :: '/' :: us.takeWhile (· != '\n')), us.dropWhile (· != '\n')) =
        (l, rest))
  | enclosed (e : Enclosed) {m : List Char} (hm : e.Closes m)
      (hcs : c :: cs = e.start ++ (m ++ rest)) (hl : l = e.make (e.start ++ m))
  | sign (hb : (c == '\n' || isLayoutBlank c) = false) (hw : startsWord c = false)
      (hd : c.isDigit = false) (hq : c ∉ ['"', '\'', '\x60'])
      (hs : ∀ d, cs.head? = some d → IsSignPair c d) (h : operatorOrBad c cs = (l, rest))

section Forms

variable {c : Char} {cs rest : List Char} {l : Lexeme}

theorem isFirst_of_next (h : next c cs = (l, rest)) (hl : l.isBad = false) :
    IsFirst c cs l rest := by
  have hliteral : ∀ {e : Enclosed} {kind : Kind}, e.start = [c] →
      (∀ m, e.make (e.start ++ m) = .token kind (c :: m)) →
      literal kind c cs (e.tail? cs) = (l, rest) → IsFirst c cs l rest := by
    intro e kind hstart hmake h
    cases ht : e.tail? cs with
    | none =>
      rw [ht] at h
      rw [← (Prod.mk.inj h).1] at hl
      cases hl
    | some p =>
      rw [ht] at h
      obtain ⟨rfl, rfl⟩ := Prod.mk.inj h
      refine .enclosed e (Enclosed.closes_of_tail? ht) ?_ (hmake p.1).symm
      rw [Enclosed.tail?_append ht, hstart]
      rfl
  unfold next at h
  split at h
  · next hb => exact .blank hb h
  split at h
  · next hw => exact .word hw h
  split at h
  · next hd => exact .number hd h
  next hb hw hd =>
  simp only [Bool.not_eq_true] at hb hw hd
  split at h
  · exact .line rfl rfl h
  · next us =>
    cases ht : blockCommentTail? us with
    | none =>
      rw [ht] at h
      rw [← (Prod.mk.inj h).1] at hl
      cases hl
    | some p =>
      rw [ht] at h
      obtain ⟨rfl, rfl⟩ := Prod.mk.inj h
      refine .enclosed .comment (Enclosed.closes_of_tail? ht) ?_ rfl
      rw [blockCommentTail?_append ht]
      rfl
  · exact hliteral (e := .string) rfl (fun _ => rfl) h
  · exact hliteral (e := .rune) rfl (fun _ => rfl) h
  · exact hliteral (e := .raw) rfl (fun _ => rfl) h
  · next d ds =>
    split at h
    · next hdigit => exact .point rfl rfl hdigit h
    · next hdigit =>
      refine .sign hb hw hd (by decide) (fun e he => ?_) h
      obtain rfl := Option.some.inj he
      exact ⟨fun hc => absurd hc (by decide), fun _ => by simpa using hdigit⟩
  · next hstring hrune hraw hline hblock hpoint =>
    refine .sign hb hw hd (by simpa using ⟨hstring, hrune, hraw⟩) (fun d hd => ?_) h
    obtain ⟨ds, rfl⟩ := List.head?_eq_some_iff.1 hd
    refine ⟨fun hc => ⟨?_, ?_⟩, fun hc => absurd rfl (hpoint d ds hc)⟩
    · rintro rfl
      exact hline ds hc rfl
    · rintro rfl
      exact hblock ds hc rfl

theorem isDigit_not_layout (h : c.isDigit = true) : (c == '\n' || isLayoutBlank c) = false := by
  have hne : ∀ {d : Char}, d.isDigit = false → c ≠ d := by
    rintro d hd rfl
    rw [h] at hd
    cases hd
  simp [isLayoutBlank, hne (d := '\n') rfl, hne (d := ' ') rfl, hne (d := '\t') rfl,
    hne (d := '\x0c') rfl, hne (d := '\r') rfl, hne (d := '\ufeff') rfl]

theorem IsFirst.next_eq (h : IsFirst c cs l rest) : next c cs = (l, rest) := by
  cases h with
  | blank hc h =>
    unfold next
    rw [if_pos hc, h]
  | word hc h => rw [next_word _ hc, h]
  | number hc h =>
    have hw : startsWord c = false :=
      Bool.eq_false_iff.2 fun hw => by simp [startsWord_not_digit hw] at hc
    unfold next
    rw [if_neg (by simp [isDigit_not_layout hc]), if_neg (by simp [hw]), if_pos hc, h]
  | point hc hcs hd h =>
    subst hc hcs
    rw [← h]
    exact if_pos hd
  | line hc hcs h =>
    subst hc hcs
    exact h
  | @enclosed e m hm hcs hl =>
    have htail := Enclosed.tail?_rest hm rest
    subst hl
    cases e with
    | comment =>
      obtain ⟨rfl, rfl⟩ := List.cons.inj hcs
      have htail : blockCommentTail? (m ++ rest) = some (m, rest) := htail
      show next '/' ('*' :: (m ++ rest)) = (.layout ('/' :: '*' :: m), rest)
      rw [next, htail, if_neg (by decide), if_neg (by decide), if_neg (by decide)]
    | raw =>
      obtain ⟨rfl, rfl⟩ := List.cons.inj hcs
      exact congrArg (literal .rawString '\x60' (m ++ rest)) htail
    | string =>
      obtain ⟨rfl, rfl⟩ := List.cons.inj hcs
      exact congrArg (literal .string '"' (m ++ rest)) htail
    | rune =>
      obtain ⟨rfl, rfl⟩ := List.cons.inj hcs
      exact congrArg (literal .rune '\'' (m ++ rest)) htail
  | sign hb hw hd hq hs h =>
    rw [← h]
    unfold next
    rw [if_neg (by simp [hb]), if_neg (by simp [hw]), if_neg (by simp [hd])]
    split
    · exact absurd rfl ((hs '/' rfl).1 rfl).1
    · exact absurd rfl ((hs '*' rfl).1 rfl).2
    · simp at hq
    · simp at hq
    · simp at hq
    · next d ds => rw [(hs d rfl).2 rfl, if_neg Bool.false_ne_true]
    · rfl

section Cut

variable {u r old : List Char}

/-- The lexeme and what is left of the front of a text make up the front. -/
theorem text_append_of_next (h : next c (u ++ old) = (l, r ++ old)) : l.text ++ r = c :: u := by
  have happ := next_append c (u ++ old)
  rw [h, ← List.append_assoc, ← List.cons_append] at happ
  exact List.append_cancel_right happ

/-- A lexeme of two characters or more goes on with the second one of its text. -/
theorem exists_cons_of_text {d : Char} {ds : List Char} (ht : l.text ++ r = c :: u)
    (hl : 2 ≤ l.text.length) (hcs : u ++ old = d :: ds) : ∃ us, u = d :: us ∧ ds = us ++ old := by
  cases u with
  | nil =>
    have hlength := congrArg List.length ht
    simp only [List.length_append, List.length_singleton] at hlength
    omega
  | cons e us =>
    obtain ⟨rfl, rfl⟩ := List.cons.inj hcs
    exact ⟨us, rfl, rfl⟩

end Cut

/-- **The scanner takes a lexeme if and only if one of the forms has it.** -/
theorem next_eq_iff (hl : l.isBad = false) : next c cs = (l, rest) ↔ IsFirst c cs l rest :=
  ⟨fun h => isFirst_of_next h hl, IsFirst.next_eq⟩

end Forms

end Understudy.Source

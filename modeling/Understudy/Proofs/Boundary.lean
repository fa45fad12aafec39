import Understudy.Proofs.LexemeForms
import Understudy.Text.Blank

/-!
# Lexemes before a boundary

A piece of source text is cut out of one place and put into another: the length of an array, a
literal value, the body of a function. Its lexemes have to come along unchanged, although what
follows the piece is new.

They do if the new text begins with a *boundary*, a character that carries nothing on: a blank, a
line end, a comma or a closing bracket. Only two kinds of last lexemes are an exception. A line
comment swallows everything up to the line end, and a keyword directly before a byte order mark is
read as a name there but not elsewhere. A lexeme that is neither is *settled*, and

> **a settled lexeme stands before every boundary** (`StandsBefore.before_boundary`),

whatever it stood before at first.
-/

set_option autoImplicit false

namespace Understudy.Source

open Text

/-! ## Boundaries -/

/-- Whether no lexeme that can end before `c` goes on with it. -/
def isBoundary (c : Char) : Bool := [' ', '\n', ',', ']', ')', '}'].contains c

/-- A boundary or a semicolon, which no lexeme goes on with either. -/
def isStop (c : Char) : Bool := isBoundary c || c == ';'

section Boundary

variable {d : Char}

theorem isStop_of_isBoundary (h : isBoundary d = true) : isStop d = true := by
  rw [isStop, h, Bool.true_or]

theorem isStop_cases (h : isStop d = true) :
    d = ' ' ∨ d = '\n' ∨ d = ',' ∨ d = ']' ∨ d = ')' ∨ d = '}' ∨ d = ';' := by
  simpa [isStop, isBoundary, or_assoc] using h

theorem endsWord_of_isStop (h : isStop d = true) (rest : List Char) : EndsWord (d :: rest) := by
  rw [endsWord_cons]
  rcases isStop_cases h with rfl | rfl | rfl | rfl | rfl | rfl | rfl <;> decide +kernel

theorem endsWord_of_isBoundary (h : isBoundary d = true) (rest : List Char) :
    EndsWord (d :: rest) := endsWord_of_isStop (isStop_of_isBoundary h) rest

theorem not_number_of_isStop (h : isStop d = true) (hex : Bool) (prev : Char) :
    (d.isAlphanum || d == '_' || d == '.' || isExponentSign hex prev d) = false := by
  rcases isStop_cases h with rfl | rfl | rfl | rfl | rfl | rfl | rfl <;> rfl

theorem not_operator_of_isStop (h : isStop d = true) :
    ∀ p ∈ Kind.operators, d ∉ p.1.toList.tail := by
  rcases isStop_cases h with rfl | rfl | rfl | rfl | rfl | rfl | rfl <;> decide

theorem isSignPair_of_isStop (h : isStop d = true) (c : Char) : IsSignPair c d := by
  rcases isStop_cases h with rfl | rfl | rfl | rfl | rfl | rfl | rfl <;>
    exact ⟨fun _ => by decide, fun _ => rfl⟩

end Boundary

/-! ## Numbers and signs

What a literal or a block comment takes does not depend on what follows it. What a number or an
operator takes does, but not before a boundary. -/

section Greedy

variable {d : Char}

theorem numberTail_stop (hd : isStop d = true) (hex : Bool) (prev : Char)
    (new : List Char) : numberTail hex prev (d :: new) = ([], d :: new) := by
  rw [numberTail, if_neg]
  rw [not_number_of_isStop hd]
  exact Bool.false_ne_true

theorem numberTail_rest {hex : Bool} {prev : Char} {taken rest old : List Char}
    (h : numberTail hex prev (taken ++ (rest ++ old)) = (taken, rest ++ old))
    (hd : isStop d = true) (new : List Char) :
    numberTail hex prev (taken ++ (rest ++ d :: new)) = (taken, rest ++ d :: new) := by
  induction taken generalizing prev with
  | nil =>
    cases rest with
    | nil => exact numberTail_stop hd hex prev new
    | cons c rest =>
      rw [List.nil_append, List.cons_append, numberTail] at h ⊢
      split at h
      · simp at h
      · next hc => rw [if_neg hc]
  | cons c taken ih =>
    rw [List.cons_append, numberTail] at h ⊢
    split at h
    · next hc =>
      have ht : numberTail hex c (taken ++ (rest ++ old)) = (taken, rest ++ old) := by
        simpa [Prod.ext_iff] using h
      rw [if_pos hc, ih ht]
    · simp at h

/-- A spelling that a boundary is in the way of is not found behind it either. -/
theorem isPrefixOf?_boundary {p t new : List Char} (ht : t ≠ []) (hp : d ∉ p.tail)
    {rest : List Char} (h : p.isPrefixOf? (t ++ d :: new) = some rest) :
    ∃ u, t = p ++ u := by
  have happ := isPrefixOf?_append h
  rcases List.append_eq_append_iff.1 happ with ⟨u, hu, -⟩ | ⟨u, hu, hr⟩
  · exact ⟨u, hu⟩
  · cases u with
    | nil => exact ⟨[], by simpa using hu.symm⟩
    | cons e u =>
      obtain ⟨rfl, -⟩ := List.cons.inj hr
      obtain ⟨c, t, rfl⟩ := List.exists_cons_of_ne_nil ht
      rw [hu] at hp
      exact absurd (by simp) hp

theorem isPrefixOf?_self_append (p rest : List Char) : p.isPrefixOf? (p ++ rest) = some rest := by
  induction p with
  | nil => rfl
  | cons c p ih => simp [List.isPrefixOf?, ih]

theorem operator?_rest {kind : Kind} {t rest old : List Char} (ht : t ≠ [])
    (h : operator? (t ++ (rest ++ old)) = some (.token kind t, rest ++ old))
    (hd : isStop d = true) (new : List Char) :
    operator? (t ++ (rest ++ d :: new)) = some (.token kind t, rest ++ d :: new) := by
  obtain ⟨before, ⟨spelling, k⟩, after, hops, hp, hbefore⟩ := List.findSome?_eq_some_iff.1 h
  obtain ⟨r, -, he⟩ := Option.map_eq_some_iff.1 hp
  obtain ⟨hlex, -⟩ := Prod.mk.inj he
  obtain ⟨hk, htext⟩ := Lexeme.token.inj hlex
  refine List.findSome?_eq_some_iff.2 ⟨before, _, after, hops, ?_, fun q hq => ?_⟩
  · simp only [← htext, isPrefixOf?_self_append, Option.map_some, ← hk]
  · -- What is found now was there before.
    rw [Option.map_eq_none_iff]
    cases hf : q.1.toList.isPrefixOf? (t ++ (rest ++ d :: new)) with
    | none => rfl
    | some s =>
      have hmem : q ∈ Kind.operators := by
        rw [hops]
        exact List.mem_append_left _ hq
      rw [← List.append_assoc] at hf
      obtain ⟨u, hu⟩ :=
        isPrefixOf?_boundary (by simp [ht]) (not_operator_of_isStop hd q hmem) hf
      have hold := hbefore q hq
      rw [Option.map_eq_none_iff, ← List.append_assoc, hu, List.append_assoc,
        isPrefixOf?_self_append] at hold
      exact absurd hold (by simp)

end Greedy

/-! ## One lexeme -/

/-- Whether a lexeme at the end of a text is the same before a boundary. -/
def Lexeme.Settled : Lexeme → Prop
  | .layout text => ¬ ['/', '/'] <+: text
  | .token kind text =>
    ∀ c cs, text = c :: cs → startsWord c = true → kind = Kind.ofWord (String.ofList text)
  | .bad _ => False

section Local

variable {c d : Char} {u old r : List Char} {l : Lexeme}

/-- What is known of the character after a lexeme is known of it before a boundary too. -/
theorem head?_before_boundary {P : Char → Prop} (hP : P d)
    (h : ∀ c, (r ++ old).head? = some c → P c) (new : List Char) :
    ∀ c, (r ++ d :: new).head? = some c → P c := by
  cases r with
  | nil =>
    intro c hc
    rwa [← Option.some.inj hc]
  | cons e r => exact h

theorem word_before_stop (h : word c (u ++ old) = (l, r ++ old)) (hs : r = [] → l.Settled)
    (hc : startsWord c = true) (hd : isStop d = true) (new : List Char) :
    word c (u ++ d :: new) = (l, r ++ d :: new) := by
  obtain ⟨hl, hr⟩ := Prod.mk.inj h
  have hu : (u ++ old).takeWhile continuesWord ++ r = u := by
    have happ := @List.takeWhile_append_dropWhile _ continuesWord (u ++ old)
    rw [hr, ← List.append_assoc] at happ
    exact List.append_cancel_right happ
  have hout : ∀ e, (r ++ old).head? = some e → continuesWord e = false := by
    intro e he
    have hnot := List.head?_dropWhile_not continuesWord (u ++ old)
    rw [hr, he] at hnot
    simpa using hnot
  have hend := endsWord_of_isStop hd new d rfl
  obtain ⟨htake, hdrop⟩ := takeWhile_append_stop
    (List.all_eq_true.1 List.all_takeWhile) (head?_before_boundary hend.1 hout new)
  rw [← List.append_assoc, hu] at htake hdrop
  unfold word
  rw [htake, hdrop, ← hl]
  refine Prod.ext ?_ rfl
  -- The kind of the word depends on whether a byte order mark follows at once. That cannot be seen
  -- from the end of the text, which is why a word there has to be settled.
  cases r with
  | nil =>
    have hkind := hs rfl
    rw [← hl] at hkind
    have hmark : ((d :: new).head? == some '\ufeff') = false := by simpa using hend.2
    simp only [List.nil_append, hmark]
    rw [hkind c _ rfl hc]
    rfl
  | cons e r =>
    simp only [hr, List.cons_append, List.head?_cons]
    rfl

/-- Whether a number is hexadecimal. -/
def isHexStart (start cs : List Char) : Bool :=
  start == ['0'] && (cs.head? == some 'x' || cs.head? == some 'X')

theorem number_eq (start : List Char) (last : Char) (cs : List Char) :
    number start last cs =
      (.token .number (start ++ (numberTail (isHexStart start cs) last cs).1),
        (numberTail (isHexStart start cs) last cs).2) := rfl

theorem number_before_stop {start : List Char} {last : Char}
    (h : number start last (u ++ old) = (l, r ++ old)) (hd : isStop d = true)
    (new : List Char) : number start last (u ++ d :: new) = (l, r ++ d :: new) := by
  rw [number_eq] at h
  obtain ⟨hl, hr⟩ := Prod.mk.inj h
  have happ := numberTail_append (isHexStart start (u ++ old)) last (u ++ old)
  rw [hr, ← List.append_assoc] at happ
  have hu := List.append_cancel_right happ
  generalize ht : (numberTail (isHexStart start (u ++ old)) last (u ++ old)).1 = taken at hl hu
  have hold : numberTail (isHexStart start (u ++ old)) last (u ++ old) = (taken, r ++ old) :=
    Prod.ext ht hr
  rw [number_eq]
  cases u with
  | nil =>
    obtain ⟨rfl, rfl⟩ := List.append_eq_nil_iff.1 hu
    rw [List.nil_append, numberTail_stop hd, ← hl]
  | cons e u =>
    -- The first character decides whether the number is hexadecimal, and it is still there.
    have hhex : isHexStart start (e :: u ++ d :: new) = isHexStart start (e :: u ++ old) := rfl
    rw [hhex]
    generalize isHexStart start (e :: u ++ old) = hex at hold ⊢
    rw [← hu, List.append_assoc] at hold ⊢
    rw [numberTail_rest hold hd new, ← hl]

theorem operatorOrBad_before_stop (h : operatorOrBad c (u ++ old) = (l, r ++ old))
    (hl : l.isBad = false) (hd : isStop d = true) (new : List Char) :
    operatorOrBad c (u ++ d :: new) = (l, r ++ d :: new) := by
  cases ho : operator? (c :: (u ++ old)) with
  | none =>
    rw [operatorOrBad, ho] at h
    rw [← (Prod.mk.inj h).1] at hl
    simp [Lexeme.isBad] at hl
  | some p =>
    rw [operatorOrBad, ho, Option.getD_some] at h
    rw [h] at ho
    obtain ⟨q, hq, rfl, happ⟩ := operator?_eq_some ho
    rw [← List.append_assoc, ← List.cons_append] at happ
    have hu := List.append_cancel_right happ
    have hne : q.1.toList ≠ [] := by
      have hall : ∀ q ∈ Kind.operators, q.1.toList ≠ [] := by decide
      exact hall q hq
    rw [← List.cons_append, ← hu, List.append_assoc] at ho
    rw [operatorOrBad, ← List.cons_append, ← hu, List.append_assoc,
      operator?_rest hne ho hd new]
    rfl

theorem lineComment_before_boundary
    (h : (Lexeme.layout ('/' :: '/' :: (u ++ old).takeWhile (· != '\n')),
      (u ++ old).dropWhile (· != '\n')) = (l, r ++ old)) (hs : r = [] → l.Settled)
    (new : List Char) :
    (Lexeme.layout ('/' :: '/' :: (u ++ d :: new).takeWhile (· != '\n')),
      (u ++ d :: new).dropWhile (· != '\n')) = (l, r ++ d :: new) := by
  obtain ⟨hl, hr⟩ := Prod.mk.inj h
  have hu := @List.takeWhile_append_dropWhile _ (· != '\n') (u ++ old)
  rw [hr, ← List.append_assoc] at hu
  have hu := List.append_cancel_right hu
  cases r with
  | nil =>
    have hset := hs rfl
    rw [← hl] at hset
    exact absurd (by simp) hset
  | cons e r =>
    have hnot := List.head?_dropWhile_not (· != '\n') (u ++ old)
    rw [hr] at hnot
    have hout : ∀ f, (e :: r ++ d :: new).head? = some f → (f != '\n') = false := by
      simpa using hnot
    obtain ⟨htake, hdrop⟩ := takeWhile_append_stop (List.all_eq_true.1 List.all_takeWhile) hout
    rw [← List.append_assoc, hu] at htake hdrop
    rw [htake, hdrop, hl]

theorem next_before_stop (h : next c (u ++ old) = (l, r ++ old)) (hl : l.isBad = false)
    (hs : r = [] → l.Settled) (hd : isStop d = true) (new : List Char) :
    next c (u ++ d :: new) = (l, r ++ d :: new) := by
  have htext := text_append_of_next h
  rw [next_eq_iff hl] at h ⊢
  cases h with
  | blank hc h =>
    obtain ⟨rfl, hr⟩ := Prod.mk.inj h
    exact .blank hc (by rw [List.append_cancel_right hr])
  | word hc h => exact .word hc (word_before_stop h hs hc hd new)
  | number hc h => exact .number hc (number_before_stop h hd new)
  | point hc hcs hdigit h =>
    obtain ⟨u, rfl, rfl⟩ := exists_cons_of_text htext (by rw [← (Prod.mk.inj h).1]; simp) hcs
    exact .point hc rfl hdigit (number_before_stop h hd new)
  | line hc hcs h =>
    obtain ⟨u, rfl, rfl⟩ := exists_cons_of_text htext (by rw [← (Prod.mk.inj h).1]; simp) hcs
    exact .line hc rfl (lineComment_before_boundary h hs new)
  | enclosed e hm _ hl' =>
    refine .enclosed e hm ?_ hl'
    rw [← List.cons_append, ← htext, hl', Enclosed.make_text, List.append_assoc, List.append_assoc]
  | sign hb hw hdigit hq hnext h =>
    exact .sign hb hw hdigit hq (head?_before_boundary (isSignPair_of_isStop hd c) hnext new)
      (operatorOrBad_before_stop h hl hd new)

theorem Lexeme.StandsBefore.text_ne_nil {l : Lexeme} {rest : List Char}
    (h : l.StandsBefore rest) : l.text ≠ [] := by
  obtain ⟨c, cs, -, hn⟩ := h
  have := next_text_ne_nil c cs
  rwa [hn] at this

/-- **A settled lexeme stands before every boundary**, and before a semicolon. -/
theorem Lexeme.StandsBefore.before_stop (h : l.StandsBefore (r ++ old))
    (hl : l.isBad = false) (hs : r = [] → l.Settled) (hd : isStop d = true)
    (new : List Char) : l.StandsBefore (r ++ d :: new) := by
  obtain ⟨e, t, htext⟩ := List.exists_cons_of_ne_nil h.text_ne_nil
  obtain ⟨c, cs, ht, hn⟩ := h
  rw [htext, List.cons_append, ← List.append_assoc] at ht
  obtain ⟨rfl, rfl⟩ := List.cons.inj ht
  refine ⟨e, t ++ r ++ d :: new, by simp [htext], ?_⟩
  exact next_before_stop hn hl hs hd new

theorem Lexeme.StandsBefore.before_boundary (h : l.StandsBefore (r ++ old))
    (hl : l.isBad = false) (hs : r = [] → l.Settled) (hd : isBoundary d = true)
    (new : List Char) : l.StandsBefore (r ++ d :: new) :=
  h.before_stop hl hs (isStop_of_isBoundary hd) new

end Local

/-! ## Several lexemes -/

/-- Lexemes that stand somewhere stand before a boundary or a semicolon if the last of them is
settled. -/
theorem StandBefore.before_stop {ls : List Lexeme} {old : List Char} {d : Char}
    (h : StandBefore ls old) (hl : ∀ l ∈ ls, l.isBad = false)
    (hs : ∀ l, ls.getLast? = some l → l.Settled) (hd : isStop d = true) (new : List Char) :
    StandBefore ls (d :: new) := by
  induction ls with
  | nil => trivial
  | cons l ls ih =>
    refine ⟨?_, ?_⟩
    · refine h.1.before_stop (hl l List.mem_cons_self) (fun hr => ?_) hd new
      cases ls with
      | nil => exact hs l rfl
      | cons m ls =>
        rw [spellLexemes_cons, List.append_eq_nil_iff] at hr
        exact absurd hr.1 h.2.1.text_ne_nil
    · refine ih h.2 (fun m hm => hl m (List.mem_cons_of_mem _ hm)) fun m hm => hs m ?_
      cases ls with
      | nil => simp at hm
      | cons n ls => rwa [List.getLast?_cons_cons]

theorem StandBefore.before_boundary {ls : List Lexeme} {old : List Char} {d : Char}
    (h : StandBefore ls old) (hl : ∀ l ∈ ls, l.isBad = false)
    (hs : ∀ l, ls.getLast? = some l → l.Settled) (hd : isBoundary d = true) (new : List Char) :
    StandBefore ls (d :: new) :=
  h.before_stop hl hs (isStop_of_isBoundary hd) new

/-! ## What a token can be

Every token is a word, a number, a literal or a sign. -/

/-- Whether a character can stand in a number. -/
def isNumberChar (c : Char) : Bool :=
  c.isAlphanum || c == '_' || c == '.' || c == '+' || c == '-'

theorem numberTail_chars (hex : Bool) (prev : Char) (cs : List Char) :
    ∀ c ∈ (numberTail hex prev cs).1, isNumberChar c = true := by
  fun_induction numberTail hex prev cs with
  | case1 => simp
  | case2 prev c cs hc taken rest heq ih =>
    rw [heq] at ih
    refine List.forall_mem_cons.2 ⟨?_, ih⟩
    simp only [isExponentSign, Bool.or_eq_true, Bool.and_eq_true] at hc
    simp only [isNumberChar, Bool.or_eq_true]
    rcases hc with ((hc | hc) | hc) | ⟨hc | hc, -⟩
    · exact Or.inl (Or.inl (Or.inl (Or.inl hc)))
    · exact Or.inl (Or.inl (Or.inl (Or.inr hc)))
    · exact Or.inl (Or.inl (Or.inr hc))
    · exact Or.inl (Or.inr hc)
    · exact Or.inr hc
  | case3 => simp

theorem isNumberChar_of_isDigit {c : Char} (h : c.isDigit = true) : isNumberChar c = true := by
  simp [isNumberChar, Char.isAlphanum, h]

section Token

variable {c : Char} {cs t rest : List Char} {k : Kind}

theorem operatorOrBad_token (h : operatorOrBad c cs = (.token k t, rest)) :
    ∃ p ∈ Kind.operators, k = p.2 ∧ t = p.1.toList := by
  unfold operatorOrBad at h
  cases ho : operator? (c :: cs) with
  | none =>
    rw [ho] at h
    exact absurd (Prod.mk.inj h).1 (by simp)
  | some p =>
    rw [ho, Option.getD_some] at h
    rw [h] at ho
    obtain ⟨q, hq, he, -⟩ := operator?_eq_some ho
    obtain ⟨hk, ht⟩ := Lexeme.token.inj he
    exact ⟨q, hq, hk, ht⟩

/-- **A token is a word, a number, a literal or a sign.** -/
theorem next_token (h : next c cs = (.token k t, rest)) :
    (startsWord c = true ∧ word c cs = (.token k t, rest)) ∨
      (k = .number ∧ ∀ d ∈ t, isNumberChar d = true) ∨
      (k ∈ [.string, .rune, .rawString] ∧
        ∃ q ∈ ['"', '\'', '\x60'], t.getLast? = some q) ∨
      ∃ p ∈ Kind.operators, k = p.2 ∧ t = p.1.toList := by
  have hnumber : ∀ {start : List Char} {last : Char} {cs : List Char},
      (∀ d ∈ start, isNumberChar d = true) → number start last cs = (.token k t, rest) →
      k = .number ∧ ∀ d ∈ t, isNumberChar d = true := by
    intro start last cs hstart h
    obtain ⟨hk, ht⟩ := Lexeme.token.inj (Prod.mk.inj h).1
    refine ⟨hk.symm, ?_⟩
    rw [← ht]
    exact List.forall_mem_append.2 ⟨hstart, numberTail_chars _ _ _⟩
  -- Blanks and comments are no tokens, and the two forms of numbers are one case of the statement.
  cases isFirst_of_next h rfl with
  | blank _ h => cases h
  | line _ _ h => cases h
  | word hw h => exact Or.inl ⟨hw, h⟩
  | number hd h => exact Or.inr (Or.inl (hnumber (by simpa using isNumberChar_of_isDigit hd) h))
  | point _ _ hd h =>
    exact Or.inr (Or.inl (hnumber (by simpa using ⟨by decide, isNumberChar_of_isDigit hd⟩) h))
  | enclosed e hm _ hl =>
    refine Or.inr (Or.inr (Or.inl ?_))
    have hlast := hm.last
    cases e with
    | comment => cases hl
    | raw | string | rune =>
      obtain ⟨rfl, rfl⟩ := Lexeme.token.inj hl
      exact ⟨by simp, _, by simp [Enclosed.mark], hlast⟩
  | sign _ _ _ _ _ h => exact Or.inr (Or.inr (Or.inr (operatorOrBad_token h)))

theorem word_text (hc : startsWord c = true) (h : word c cs = (.token k t, rest)) :
    isWord (String.ofList t) = true := by
  obtain ⟨-, ht⟩ := Lexeme.token.inj (Prod.mk.inj h).1
  refine isWord_iff.2 ⟨c, cs.takeWhile continuesWord, ?_, hc, ?_⟩
  · rw [String.toList_ofList, ht]
  · exact List.all_eq_true.1 List.all_takeWhile

/-- A name is a word. -/
theorem next_ident (h : next c cs = (.token .ident t, rest)) :
    isWord (String.ofList t) = true := by
  rcases next_token h with ⟨hc, hw⟩ | ⟨hk, -⟩ | ⟨hk, -⟩ | ⟨p, hp, hk, -⟩
  · exact word_text hc hw
  · cases hk
  · simp at hk
  · have hall : ∀ p ∈ Kind.operators, p.2 ≠ .ident := by decide
    exact absurd hk.symm (hall p hp)

/-- A word is a name or one of the keywords. -/
theorem Kind.ofWord_mem (w : String) :
    Kind.ofWord w = .ident ∨ (w, Kind.ofWord w) ∈ Kind.keywords := by
  unfold Kind.ofWord
  cases h : keywords.lookup w with
  | none => exact Or.inl rfl
  | some kind =>
    obtain ⟨before, after, hk, -⟩ := List.lookup_eq_some_iff.1 h
    right
    rw [hk]
    simp

theorem Kind.ofWord_ne_number (w : String) : Kind.ofWord w ≠ .number := by
  rcases Kind.ofWord_mem w with h | h
  · rw [h]
    decide
  · have hall : ∀ p ∈ keywords, p.2 ≠ .number := by decide
    exact hall _ h

theorem next_number (h : next c cs = (.token .number t, rest)) :
    ∀ d ∈ t, isNumberChar d = true := by
  rcases next_token h with ⟨-, hw⟩ | ⟨-, ht⟩ | ⟨hk, -⟩ | ⟨p, hp, hk, -⟩
  · obtain ⟨hk, -⟩ := Lexeme.token.inj (Prod.mk.inj hw).1
    split at hk
    · cases hk
    · exact absurd hk (Kind.ofWord_ne_number _)
  · exact ht
  · simp at hk
  · have hall : ∀ p ∈ Kind.operators, p.2 ≠ .number := by decide
    exact absurd hk.symm (hall p hp)

/-- A token other than a name stands before every boundary. -/
theorem settled_of_next (h : next c cs = (.token k t, rest)) (hk : k ≠ .ident) :
    (Lexeme.token k t).Settled := by
  intro d ds ht hd
  have happend := next_append c cs
  rw [h, Lexeme.text_token, ht] at happend
  obtain rfl : d = c := (List.cons.inj happend).1
  rw [next_word _ hd] at h
  obtain ⟨hkind, htext⟩ := Lexeme.token.inj (Prod.mk.inj h).1
  rw [htext] at hkind
  split at hkind
  · exact absurd hkind.symm hk
  · exact hkind.symm

/-! A token spans no lines unless it is a literal, and no token ends with a carriage return. -/

theorem mem_of_isWord {s : String} (h : isWord s = true) : ∀ d ∈ s.toList, continuesWord d = true := by
  obtain ⟨c, cs, hs, hc, hcs⟩ := isWord_iff.1 h
  rw [hs]
  refine List.forall_mem_cons.2 ⟨?_, hcs⟩
  simp only [startsWord, Bool.or_eq_true] at hc
  simp only [continuesWord, Bool.or_eq_true]
  exact Or.inl hc

theorem next_no_newline (h : next c cs = (.token k t, rest))
    (hk : k ∉ [Kind.string, .rune, .rawString]) : '\n' ∉ t := by
  intro hn
  rcases next_token h with ⟨hc, hw⟩ | ⟨-, ht⟩ | ⟨hk', -⟩ | ⟨p, hp, -, ht⟩
  · have hword := mem_of_isWord (word_text hc hw) '\n' (by rwa [String.toList_ofList])
    exact absurd hword (by decide +kernel)
  · exact absurd (ht _ hn) (by decide)
  · exact hk hk'
  · have hall : ∀ p ∈ Kind.operators, '\n' ∉ p.1.toList := by decide
    rw [ht] at hn
    exact hall p hp hn

theorem next_last_ne (h : next c cs = (.token k t, rest)) : t.getLast? ≠ some '\r' := by
  intro hlast
  have hmem := List.mem_of_getLast? hlast
  rcases next_token h with ⟨hc, hw⟩ | ⟨-, ht⟩ | ⟨-, q, hq, ht⟩ | ⟨p, hp, -, ht⟩
  · have hword := mem_of_isWord (word_text hc hw) '\r' (by rwa [String.toList_ofList])
    exact absurd hword (by decide +kernel)
  · exact absurd (ht _ hmem) (by decide)
  · have hall : ∀ q ∈ ['"', '\'', '\x60'], q ≠ '\r' := by simp
    exact hall q hq (Option.some.inj (ht.symm.trans hlast))
  · have hall : ∀ p ∈ Kind.operators, '\r' ∉ p.1.toList := by decide
    rw [ht] at hmem
    exact hall p hp hmem

end Token

/-! ## The end of a text -/

/-- A lexeme at the end of a text is settled, or it is a comment to the end of the line. -/
theorem Lexeme.StandsBefore.last {l : Lexeme} (h : l.StandsBefore []) (hl : l.isBad = false) :
    l.Settled ∨ ∃ u, '\n' ∉ u ∧ l = .layout ('/' :: '/' :: u) := by
  obtain ⟨c, cs, ht, hn⟩ := h
  rw [List.append_nil] at ht
  cases l with
  | bad text => exact absurd hl (by simp [Lexeme.isBad])
  | token kind text =>
    refine Or.inl fun d ds hd hw => ?_
    obtain ⟨rfl, rfl⟩ := List.cons.inj (ht.symm.trans hd)
    rw [next_word _ hw] at hn
    obtain ⟨hlex, hr⟩ := Prod.mk.inj hn
    obtain ⟨hk, htext⟩ := Lexeme.token.inj hlex
    rw [hr, htext] at hk
    exact hk.symm
  | layout text =>
    by_cases hline : ['/', '/'] <+: text
    · obtain ⟨u, rfl⟩ := hline
      obtain ⟨rfl, rfl⟩ := List.cons.inj ht
      have hcomment : (Lexeme.layout ('/' :: '/' :: u.takeWhile (· != '\n')),
          u.dropWhile (· != '\n')) = (.layout ('/' :: '/' :: u), []) := hn
      have hu : u.takeWhile (· != '\n') = u := by simpa using (Prod.mk.inj hcomment).1
      refine Or.inr ⟨u, fun hmem => ?_, rfl⟩
      rw [← hu] at hmem
      have hall := List.all_eq_true.1 List.all_takeWhile _ hmem
      exact absurd hall (by decide)
    · exact Or.inl hline

/-- **A line end may follow any text**, for a comment to the end of the line ends there too. -/
theorem Lexeme.StandsBefore.before_newline {l : Lexeme} {rest : List Char}
    (h : l.StandsBefore rest) (hl : l.isBad = false) (new : List Char) :
    l.StandsBefore (rest ++ '\n' :: new) := by
  cases rest with
  | cons c cs =>
    have hcons : l.StandsBefore ((c :: cs) ++ []) := by rwa [List.append_nil]
    exact hcons.before_boundary hl (fun hr => absurd hr (List.cons_ne_nil c cs)) rfl new
  | nil =>
    have hnil : l.StandsBefore ([] ++ []) := h
    rcases h.last hl with hs | ⟨u, hu, rfl⟩
    · exact hnil.before_boundary hl (fun _ => hs) rfl new
    · have hout : ∀ c, ('\n' :: new).head? = some c → (c != '\n') = false := by simp
      have hin : ∀ c ∈ u, (c != '\n') = true := by
        intro c hc
        rw [bne_iff_ne]
        rintro rfl
        exact hu hc
      obtain ⟨htake, hdrop⟩ := takeWhile_append_stop hin hout
      refine ⟨'/', '/' :: (u ++ '\n' :: new), rfl, ?_⟩
      show (Lexeme.layout ('/' :: '/' :: (u ++ '\n' :: new).takeWhile (· != '\n')),
        (u ++ '\n' :: new).dropWhile (· != '\n')) = _
      rw [htake, hdrop]
      rfl

theorem StandBefore.before_newline {ls : List Lexeme} (h : StandBefore ls [])
    (hl : ∀ l ∈ ls, l.isBad = false) (new : List Char) : StandBefore ls ('\n' :: new) := by
  induction ls with
  | nil => trivial
  | cons l ls ih =>
    obtain ⟨hbad, hrest⟩ := List.forall_mem_cons.1 hl
    have hstand := h.1
    rw [List.append_nil] at hstand
    exact ⟨hstand.before_newline hbad new, ih h.2 hrest⟩

/-! ## Texts of one token -/

section IsToken

variable {k : Kind} {s : String}

theorem IsToken.standsBefore (h : IsToken k s) :
    (Lexeme.token k s.toList).StandsBefore [] := by
  have hs := standBefore_lexemes s.toList
  rw [h] at hs
  exact hs.1

theorem IsToken.next (h : IsToken k s) :
    ∃ c cs, s.toList = c :: cs ∧ next c cs = (.token k s.toList, []) := by
  obtain ⟨c, cs, ht, hn⟩ := h.standsBefore
  rw [Lexeme.text_token, List.append_nil] at ht
  exact ⟨c, cs, ht, hn⟩

/-- A token that is all of a text is settled: no byte order mark follows it. -/
theorem IsToken.settled (h : IsToken k s) : (Lexeme.token k s.toList).Settled :=
  (h.standsBefore.last rfl).resolve_right (by simp)

theorem IsToken.stand (h : IsToken k s) {d : Char} (hd : isBoundary d = true)
    (rest : List Char) : StandBefore [.token k s.toList] (d :: rest) :=
  ⟨h.standsBefore.before_boundary (r := []) rfl (fun _ => h.settled) hd rest, trivial⟩

/-- **The names are the words that are no keywords.** -/
theorem isToken_ident_iff : IsToken .ident s ↔ isWord s = true ∧ Kind.ofWord s = .ident := by
  constructor
  · intro h
    obtain ⟨c, cs, hs, hn⟩ := h.next
    have hw := next_ident hn
    rw [String.ofList_toList] at hw
    obtain ⟨d, ds, hd, hstart, -⟩ := isWord_iff.1 hw
    have hk := h.settled d ds hd hstart
    rw [String.ofList_toList] at hk
    exact ⟨hw, hk.symm⟩
  · rintro ⟨hw, hk⟩
    have hl := lexemes_of_standsBefore (word_stands hw endsWord_nil)
    rw [Lexeme.ofWord_text, List.append_nil, lexemes_nil, Lexeme.ofWord, hk] at hl
    exact hl

end IsToken

/-! ## Blanks -/

/-- The code points of some ranges. -/
def rangeCodes (rs : Ranges) : List Nat :=
  rs.flatMap fun (lo, hi) => List.range' lo (hi + 1 - lo)

theorem mem_rangeCodes {rs : Ranges} {n : Nat} (h : rs.has n = true) : n ∈ rangeCodes rs := by
  induction rs with
  | nil => simp [Ranges.has] at h
  | cons r rs ih =>
    obtain ⟨lo, hi⟩ := r
    rw [Ranges.has] at h
    split at h
    · exact absurd h Bool.false_ne_true
    · simp only [Bool.or_eq_true, decide_eq_true_eq] at h
      rw [rangeCodes, List.flatMap_cons, List.mem_append]
      rcases h with h | h
      · left
        rw [List.mem_range'_1]
        omega
      · exact Or.inr (ih h)

/-- No blank stands in a word. -/
theorem isBlank_of_continuesWord {c : Char} (h : continuesWord c = true) : isBlank c = false := by
  cases hb : isBlank c with
  | false => rfl
  | true =>
    have hall : ∀ n ∈ rangeCodes blanks,
        n ≠ 95 ∧ letters.has n = false ∧ decimalDigits.has n = false := by decide +kernel
    obtain ⟨hu, hl, hd⟩ := hall _ (mem_rangeCodes hb)
    have hu : c ≠ '_' := fun hc => hu (by rw [hc]; rfl)
    simp [continuesWord, isLetter, isDecimalDigit, hl, hd, hu] at h

/-- No blank stands in a number. -/
theorem isBlank_of_isNumberChar {c : Char} (h : isNumberChar c = true) : isBlank c = false := by
  cases hb : isBlank c with
  | false => rfl
  | true =>
    have hall : ∀ n ∈ rangeCodes blanks, isNumberChar (Char.ofNat n) = false := by decide +kernel
    have hc := hall _ (mem_rangeCodes hb)
    rw [Char.ofNat_toNat, h] at hc
    exact absurd hc (by simp)

theorem trim_eq_self {cs : List Char} (h : ∀ c ∈ cs, isBlank c = false) : trim cs = cs := by
  have hdrop : ∀ ds : List Char, (∀ c ∈ ds, isBlank c = false) → ds.dropWhile isBlank = ds := by
    intro ds hds
    cases ds with
    | nil => rfl
    | cons c ds => simp [hds c List.mem_cons_self]
  rw [trim, trimStart, hdrop cs h, trimEnd, hdrop _ fun c hc => h c (List.mem_reverse.1 hc),
    List.reverse_reverse]

theorem not_isBlank_of_isWord {s : String} (h : isWord s = true) :
    ∀ c ∈ s.toList, isBlank c = false := by
  obtain ⟨c, cs, hs, hc, hcs⟩ := isWord_iff.1 h
  rw [hs]
  refine List.forall_mem_cons.2 ⟨isBlank_of_continuesWord ?_, fun d hd =>
    isBlank_of_continuesWord (hcs d hd)⟩
  simp only [startsWord, Bool.or_eq_true] at hc
  simp only [continuesWord, Bool.or_eq_true]
  exact Or.inl hc

theorem IsToken.trim_ident {s : String} (h : IsToken .ident s) : trim s.toList = s.toList :=
  trim_eq_self (not_isBlank_of_isWord (isToken_ident_iff.1 h).1)

theorem IsToken.trim_number {s : String} (h : IsToken .number s) : trim s.toList = s.toList := by
  obtain ⟨c, cs, hs, hn⟩ := h.next
  exact trim_eq_self fun d hd => isBlank_of_isNumberChar (next_number hn d hd)

end Understudy.Source

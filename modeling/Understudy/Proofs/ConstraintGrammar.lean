import Understudy.Modules.Target
import Understudy.Proofs.Boundary

/-!
# The grammar of build constraints

A build constraint is evaluated while it is read. Which texts are constraints, and what they mean, is
said here without the reader: a text is split into signs (`Splits`), the signs are those of a tree of
the grammar (`Phrase`), and the tree has a truth value when it is known which tags hold.

> **A constraint has a value exactly if its text is written by the grammar, and the value is that of
> the tree. Otherwise it is at fault, in the same way for every target** (`eval_eq_ok_iff`).

The two levels of the grammar that chain operands are read by one function, so what has to be known of
them is stated once for both (`Chained`).
-/

set_option autoImplicit false

namespace Understudy.Modules.Constraint

open Text

/-! ## Trees -/

/-- The levels of the grammar. -/
inductive Level where
  | or
  | and
  | not

/-- The trees of the grammar: at each level a phrase of the level below, or several with a sign
between them. -/
inductive Phrase : Level → Type where
  /-- `or ::= and` -/
  | conjunction (p : Phrase .and) : Phrase .or
  /-- `or ::= or || and` -/
  | or (left : Phrase .or) (right : Phrase .and) : Phrase .or
  /-- `and ::= not` -/
  | operand (p : Phrase .not) : Phrase .and
  /-- `and ::= and && not` -/
  | and (left : Phrase .and) (right : Phrase .not) : Phrase .and
  /-- `not ::= ! not` -/
  | not (p : Phrase .not) : Phrase .not
  /-- `not ::= ( or )` -/
  | parens (p : Phrase .or) : Phrase .not
  /-- `not ::= tag` -/
  | tag (name : String) : Phrase .not

namespace Phrase

variable {l : Level}

/-- The signs that a phrase is written with. -/
def signs : {l : Level} → Phrase l → List Sign
  | _, conjunction p | _, operand p => p.signs
  | _, or left right => left.signs ++ .or :: right.signs
  | _, and left right => left.signs ++ .and :: right.signs
  | _, not p => .not :: p.signs
  | _, parens p => .lparen :: (p.signs ++ [.rparen])
  | _, tag name => [.tag name]

/-- The truth value of a phrase when `holds` tells which tags hold. -/
def value (holds : String → Bool) : {l : Level} → Phrase l → Bool
  | _, conjunction p | _, operand p | _, parens p => p.value holds
  | _, or left right => left.value holds || right.value holds
  | _, and left right => left.value holds && right.value holds
  | _, not p => !p.value holds
  | _, tag name => holds name

/-- The expression that a phrase stands for. -/
def constraint : {l : Level} → Phrase l → Constraint
  | _, conjunction p | _, operand p | _, parens p => p.constraint
  | _, or left right => .or left.constraint right.constraint
  | _, and left right => .and left.constraint right.constraint
  | _, not p => .not p.constraint
  | _, tag name => .tag name

theorem eval_constraint (holds : String → Bool) (p : Phrase l) :
    eval holds p.constraint = p.value holds := by
  induction p with
  | conjunction p ih | operand p ih | parens p ih => exact ih
  | or left right ihl ihr | and left right ihl ihr => rw [constraint, eval, ihl, ihr, value]
  | not p ih => rw [constraint, eval, ih, value]
  | tag name => rfl

end Phrase

/-! ## Reading trees -/

/-- Whether a phrase of a level ends in front of some signs, rather than going on with them. -/
def Level.Stops : Level → List Sign → Prop
  | not, _ => True
  | and, ss => ss.head? ≠ some .and
  | or, ss => ss.head? ≠ some .and ∧ ss.head? ≠ some .or

/-- **A reader only reads phrases.** -/
def ReadsOnly (l : Level) (read : Reader) : Prop :=
  ∀ ss c rest, read ss = .ok (c, rest) → ∃ p : Phrase l, ss = p.signs ++ rest ∧ c = p.constraint

/-- **A reader reads all phrases** of at most `n` signs. -/
def ReadsAll (l : Level) (n : Nat) (read : Reader) : Prop :=
  ∀ p : Phrase l, p.signs.length ≤ n → ∀ rest, l.Stops rest →
    read (p.signs ++ rest) = .ok (p.constraint, rest)

/-- The phrases of the level `upper` are chains of phrases of the level `lower`, with `op` between
them. -/
structure Chained (lower upper : Level) (op : Sign)
    (combine : Constraint → Constraint → Constraint) where
  /-- A chain of one phrase. -/
  single : Phrase lower → Phrase upper
  /-- A chain with one phrase more. -/
  snoc : Phrase upper → Phrase lower → Phrase upper
  single_signs : ∀ p, (single p).signs = p.signs
  single_constraint : ∀ p, (single p).constraint = p.constraint
  snoc_signs : ∀ p q, (snoc p q).signs = p.signs ++ op :: q.signs
  snoc_constraint : ∀ p q, (snoc p q).constraint = combine p.constraint q.constraint
  ind : ∀ {P : Phrase upper → Prop}, (∀ p, P (single p)) → (∀ p q, P p → P (snoc p q)) → ∀ p, P p
  stops_op : ∀ ss, lower.Stops (op :: ss)
  stops : ∀ ss, upper.Stops ss → lower.Stops ss ∧ ss.head? ≠ some op

theorem Phrase.and_induction {P : Phrase .and → Prop} (hsingle : ∀ p, P (.operand p))
    (hsnoc : ∀ p q, P p → P (.and p q)) : ∀ p, P p
  | .operand p => hsingle p
  | .and p q => hsnoc p q (and_induction hsingle hsnoc p)

theorem Phrase.or_induction {P : Phrase .or → Prop} (hsingle : ∀ p, P (.conjunction p))
    (hsnoc : ∀ p q, P p → P (.or p q)) : ∀ p, P p
  | .conjunction p => hsingle p
  | .or p q => hsnoc p q (or_induction hsingle hsnoc p)

/-- Conjunctions are chains of operands. -/
def conjunctions : Chained .not .and .and Constraint.and where
  single := .operand
  snoc := .and
  single_signs _ := rfl
  single_constraint _ := rfl
  snoc_signs _ _ := rfl
  snoc_constraint _ _ := rfl
  ind := Phrase.and_induction
  stops_op _ := trivial
  stops _ h := ⟨trivial, h⟩

/-- Disjunctions are chains of conjunctions. -/
def disjunctions : Chained .and .or .or Constraint.or where
  single := .conjunction
  snoc := .or
  single_signs _ := rfl
  single_constraint _ := rfl
  snoc_signs _ _ := rfl
  snoc_constraint _ _ := rfl
  ind := Phrase.or_induction
  stops_op _ h := by cases h
  stops _ h := h

section Chains

variable {lower upper : Level} {op : Sign} {combine : Constraint → Constraint → Constraint}
  {operand : Reader} (ch : Chained lower upper op combine)

include ch

theorem Chained.readsOnly_tail (h : ReadsOnly lower operand) {n : Nat} {p : Phrase upper}
    {ss rest : List Sign} {c : Constraint}
    (hr : chainTail op combine operand n p.constraint ss = .ok (c, rest)) :
    ∃ q : Phrase upper, p.signs ++ ss = q.signs ++ rest ∧ c = q.constraint := by
  -- The loop carries what it has read so far as a tree, which grows at its right end in each turn.
  induction n generalizing p ss with
  | zero =>
    cases hr
    exact ⟨p, rfl, rfl⟩
  | succ n ih =>
    cases ss with
    | nil =>
      cases hr
      exact ⟨p, rfl, rfl⟩
    | cons s ss =>
      rw [chainTail] at hr
      split at hr
      · next hs =>
        rw [eq_of_beq hs]
        cases hnext : operand ss with
        | error fault =>
          rw [hnext] at hr
          cases hr
        | ok found =>
          obtain ⟨right, after⟩ := found
          obtain ⟨q, rfl, rfl⟩ := h _ _ _ hnext
          rw [hnext] at hr
          replace hr : chainTail op combine operand n (combine p.constraint q.constraint) after =
            .ok (c, rest) := hr
          rw [← ch.snoc_constraint] at hr
          obtain ⟨r, hsigns, hc⟩ := ih hr
          refine ⟨r, ?_, hc⟩
          rw [← hsigns, ch.snoc_signs, List.append_assoc, List.cons_append]
      · cases hr
        exact ⟨p, rfl, rfl⟩

theorem Chained.readsOnly (h : ReadsOnly lower operand) :
    ReadsOnly upper (chain op combine operand) := by
  intro ss c rest hr
  rw [chain] at hr
  cases hfirst : operand ss with
  | error fault =>
    rw [hfirst] at hr
    cases hr
  | ok found =>
    obtain ⟨first, after⟩ := found
    obtain ⟨p, rfl, rfl⟩ := h _ _ _ hfirst
    rw [hfirst] at hr
    replace hr : chainTail op combine operand after.length p.constraint after = .ok (c, rest) := hr
    rw [← ch.single_constraint] at hr
    obtain ⟨q, hsigns, hc⟩ := ch.readsOnly_tail h hr
    exact ⟨q, by rw [← hsigns, ch.single_signs], hc⟩

/-- What is left to be read behind a chain that may go on. The counter never runs out, since it is at
least the number of signs. -/
theorem Chained.reads {n : Nat} (h : ReadsAll lower n operand) (p : Phrase upper) :
    p.signs.length ≤ n → ∀ rest, lower.Stops rest → ∃ k, rest.length ≤ k ∧
      chain op combine operand (p.signs ++ rest) =
        chainTail op combine operand k p.constraint rest := by
  refine ch.ind (P := fun p => p.signs.length ≤ n → ∀ rest, lower.Stops rest → ∃ k,
    rest.length ≤ k ∧ chain op combine operand (p.signs ++ rest) =
      chainTail op combine operand k p.constraint rest) ?single ?snoc p
  case single =>
    intro p hn rest hstop
    rw [ch.single_signs] at hn ⊢
    refine ⟨rest.length, le_rfl, ?_⟩
    rw [chain, h p hn rest hstop, ch.single_constraint]
    rfl
  case snoc =>
    intro p q ih hn rest hstop
    rw [ch.snoc_signs, List.length_append, List.length_cons] at hn
    obtain ⟨k, hk, hread⟩ := ih (by omega) (op :: (q.signs ++ rest)) (ch.stops_op _)
    rw [List.length_cons, List.length_append] at hk
    obtain ⟨m, rfl⟩ : ∃ m, k = m + 1 := ⟨k - 1, by omega⟩
    refine ⟨m, by omega, ?_⟩
    rw [ch.snoc_signs, List.append_assoc, List.cons_append, hread, chainTail, if_pos (by simp),
      h q (by omega) rest hstop, ch.snoc_constraint]
    rfl

theorem Chained.readsAll {n : Nat} (h : ReadsAll lower n operand) :
    ReadsAll upper n (chain op combine operand) := by
  intro p hn rest hstop
  obtain ⟨hlower, hop⟩ := ch.stops rest hstop
  obtain ⟨k, -, hread⟩ := ch.reads h p hn rest hlower
  rw [hread]
  cases k with
  | zero => rfl
  | succ k =>
    cases rest with
    | nil => rfl
    | cons s rest =>
      rw [chainTail, if_neg]
      exact fun hs => hop (congrArg some (eq_of_beq hs))

end Chains

theorem readsOnly_disjunction {operand : Reader} (h : ReadsOnly .not operand) :
    ReadsOnly .or (disjunction operand) :=
  disjunctions.readsOnly (conjunctions.readsOnly h)

theorem readsAll_disjunction {operand : Reader} {n : Nat} (h : ReadsAll .not n operand) :
    ReadsAll .or n (disjunction operand) :=
  disjunctions.readsAll (conjunctions.readsAll h)

theorem readsOnly_operandAt (n : Nat) : ReadsOnly .not (operandAt n) := by
  induction n with
  | zero =>
    intro ss c rest h
    cases h
  | succ n ih =>
    intro ss c rest h
    rcases ss with _ | ⟨s, ss⟩
    · cases h
    cases s with
    -- Every other sign is an operand of its own, or one more level down.
    | tag name =>
      cases h
      exact ⟨.tag name, rfl, rfl⟩
    | not =>
      rw [operandAt] at h
      cases hread : operandAt n ss with
      | error fault =>
        rw [hread] at h
        cases h
      | ok found =>
        obtain ⟨p, rfl, hp⟩ := ih _ _ _ hread
        rw [hread] at h
        cases h
        exact ⟨.not p, rfl, by rw [hp, Phrase.constraint]⟩
    | lparen =>
      rw [operandAt] at h
      cases hread : disjunction (operandAt n) ss with
      | error fault =>
        rw [hread] at h
        cases h
      | ok found =>
        obtain ⟨inner, after⟩ := found
        obtain ⟨p, rfl, rfl⟩ := readsOnly_disjunction ih _ _ _ hread
        rw [hread] at h
        rcases after with _ | ⟨s, after⟩
        · cases h
        cases s with
        | rparen =>
          cases h
          exact ⟨.parens p, by simp [Phrase.signs], rfl⟩
        | _ => cases h
    | and | or | rparen => cases h

theorem readsAll_operandAt (n : Nat) : ReadsAll .not n (operandAt n) := by
  induction n with
  | zero =>
    intro p hn
    cases p <;> simp [Phrase.signs] at hn
  | succ n ih =>
    intro p hn rest _
    cases p with
    | tag name => rfl
    | not p =>
      rw [Phrase.signs, List.length_cons] at hn
      rw [Phrase.signs, List.cons_append, operandAt, ih p (by omega) rest trivial]
      rfl
    | parens p =>
      rw [Phrase.signs, List.length_cons, List.length_append] at hn
      have hstop : Level.or.Stops (.rparen :: rest) := ⟨by simp, by simp⟩
      have hread := readsAll_disjunction ih p (by omega) (.rparen :: rest) hstop
      rw [Phrase.signs, List.cons_append, List.append_assoc, List.singleton_append, operandAt, hread]
      rfl

/-! ## Splitting texts -/

/-- The signs that are always written in the same way. -/
def symbols : List (List Char × Sign) := [
  (['&', '&'], .and), (['|', '|'], .or), (['!'], .not), (['('], .lparen), ([')'], .rparen)]

/-- Whether a text consists of some signs, with blanks anywhere around them. A tag goes on as long as
it can. -/
inductive Splits : List Char → List Sign → Prop
  | nil : Splits [] []
  | blank {c : Char} {cs : List Char} {ss : List Sign} : isBlank c = true → Splits cs ss →
      Splits (c :: cs) ss
  | symbol {text cs : List Char} {s : Sign} {ss : List Sign} : (text, s) ∈ symbols → Splits cs ss →
      Splits (text ++ cs) (s :: ss)
  | tag {name cs : List Char} {ss : List Sign} : name ≠ [] → (∀ c ∈ name, isTagChar c = true) →
      (∀ c ∈ cs.head?, isTagChar c = false) → Splits cs ss →
      Splits (name ++ cs) (.tag (String.ofList name) :: ss)

theorem isBlank_of_isTagChar {c : Char} (h : isTagChar c = true) : isBlank c = false := by
  cases hb : isBlank c with
  | false => rfl
  | true =>
    have hall : ∀ n ∈ Source.rangeCodes blanks, isTagChar (Char.ofNat n) = false := by
      decide +kernel
    have hc := hall _ (Source.mem_rangeCodes hb)
    rw [Char.ofNat_toNat, h] at hc
    cases hc

/-- A character that begins no symbol is a blank, or it begins a tag or nothing. -/
theorem signs_other {c : Char} (hc : c ∉ ['&', '|', '!', '(', ')']) (cs : List Char) :
    signs (c :: cs) =
      if isBlank c then signs cs
      else if isTagChar c then
        (signs (cs.dropWhile isTagChar)).map
          (.tag (String.ofList (c :: cs.takeWhile isTagChar)) :: ·)
      else .error (.invalidCharacter (String.ofList (c :: cs))) := by
  simp only [List.mem_cons, List.not_mem_nil, or_false, not_or] at hc
  obtain ⟨hand, hor, hnot, hopen, hclose⟩ := hc
  exact signs.eq_7 c cs (fun _ h => absurd h hand) (fun _ h => absurd h hor) hnot hopen hclose

theorem not_symbol {c : Char} (h : isBlank c = true ∨ isTagChar c = true) :
    c ∉ ['&', '|', '!', '(', ')'] := by
  intro hc
  simp only [List.mem_cons, List.not_mem_nil, or_false] at hc
  rcases hc with rfl | rfl | rfl | rfl | rfl <;> exact absurd h (by decide)

theorem signs_symbol {text cs : List Char} {s : Sign} (h : (text, s) ∈ symbols) :
    signs (text ++ cs) = (signs cs).map (s :: ·) := by
  simp only [symbols, List.mem_cons, List.not_mem_nil, or_false, Prod.mk.injEq] at h
  rcases h with ⟨rfl, rfl⟩ | ⟨rfl, rfl⟩ | ⟨rfl, rfl⟩ | ⟨rfl, rfl⟩ | ⟨rfl, rfl⟩ <;>
    simp [signs]

theorem signs_of_splits {cs : List Char} {ss : List Sign} (h : Splits cs ss) : signs cs = .ok ss := by
  induction h with
  | nil => rw [signs]
  | blank hc _ ih => rw [signs_other (not_symbol (Or.inl hc)), if_pos hc, ih]
  | symbol hs _ ih => rw [signs_symbol hs, ih]; rfl
  | @tag name cs ss hne hname hnext _ ih =>
    obtain ⟨c, name, rfl⟩ := List.exists_cons_of_ne_nil hne
    obtain ⟨hc, hname⟩ := List.forall_mem_cons.1 hname
    have hrest : cs.takeWhile isTagChar = [] ∧ cs.dropWhile isTagChar = cs := by
      cases cs with
      | nil => exact ⟨rfl, rfl⟩
      | cons d cs => simp [hnext d rfl]
    rw [List.cons_append, signs_other (not_symbol (Or.inr hc)),
      if_neg (by simp [isBlank_of_isTagChar hc]), if_pos hc,
      List.takeWhile_append_of_pos hname, List.dropWhile_append_of_pos hname, hrest.1, hrest.2, ih,
      List.append_nil]
    rfl

theorem map_cons_eq_ok {e : Except Fault (List Sign)} {s : Sign} {ss : List Sign}
    (h : e.map (s :: ·) = .ok ss) : ∃ ss', e = .ok ss' ∧ ss = s :: ss' := by
  cases e with
  | error fault => cases h
  | ok ss' =>
    cases h
    exact ⟨ss', rfl, rfl⟩

theorem splits_of_signs {cs : List Char} {ss : List Sign} (h : signs cs = .ok ss) : Splits cs ss := by
  fun_induction signs cs generalizing ss with
  | case1 =>
    cases h
    exact .nil
  | case2 cs ih =>
    obtain ⟨ss', hs, rfl⟩ := map_cons_eq_ok h
    exact @Splits.symbol ['&', '&'] _ _ _ (by decide) (ih hs)
  | case3 cs ih =>
    obtain ⟨ss', hs, rfl⟩ := map_cons_eq_ok h
    exact @Splits.symbol ['|', '|'] _ _ _ (by decide) (ih hs)
  | case4 cs ih =>
    obtain ⟨ss', hs, rfl⟩ := map_cons_eq_ok h
    exact @Splits.symbol ['!'] _ _ _ (by decide) (ih hs)
  | case5 cs ih =>
    obtain ⟨ss', hs, rfl⟩ := map_cons_eq_ok h
    exact @Splits.symbol ['('] _ _ _ (by decide) (ih hs)
  | case6 cs ih =>
    obtain ⟨ss', hs, rfl⟩ := map_cons_eq_ok h
    exact @Splits.symbol [')'] _ _ _ (by decide) (ih hs)
  | case7 c cs _ _ _ _ _ hc ih => exact .blank hc (ih h)
  -- A tag takes all its characters, and the one behind them is none of a tag.
  | case8 c cs _ _ _ _ _ _ hc ih =>
    obtain ⟨ss', hs, rfl⟩ := map_cons_eq_ok h
    have hsplit := Splits.tag (List.cons_ne_nil c (cs.takeWhile isTagChar)) ?_ ?_ (ih hs)
    · rwa [List.cons_append, List.takeWhile_append_dropWhile] at hsplit
    · exact List.forall_mem_cons.2 ⟨hc, fun d hd => List.mem_takeWhile_imp hd⟩
    · intro d hd
      have hnot := List.head?_dropWhile_not isTagChar cs
      rw [Option.mem_def.1 hd] at hnot
      simpa using hnot
  | case9 => cases h

/-- **The signs of a text are those that it splits into.** -/
theorem signs_eq_ok_iff {cs : List Char} {ss : List Sign} : signs cs = .ok ss ↔ Splits cs ss :=
  ⟨splits_of_signs, signs_of_splits⟩

/-! ## Reading texts -/

theorem parse_eq_ok_iff {text : String} {c : Constraint} :
    parse text = .ok c ↔ ∃ p : Phrase .or, Splits text.toList p.signs ∧ c = p.constraint := by
  have hread : ∀ {ss : List Sign}, signs text.toList = .ok ss → (parse text = .ok c ↔
      disjunction (operandAt (ss.length + 1)) ss = .ok (c, [])) := by
    intro ss hs
    rw [parse, hs]
    cases hd : disjunction (operandAt (ss.length + 1)) ss with
    | error fault => simp [bind, Except.bind, hd]
    | ok found =>
      obtain ⟨c', rest⟩ := found
      cases rest with
      | nil => simp [bind, Except.bind, hd, pure, Except.pure]
      | cons s rest =>
        simp [bind, Except.bind, hd, throw, throwThe, MonadExceptOf.throw]
  constructor
  · intro h
    cases hs : signs text.toList with
    | error fault =>
      rw [parse, hs] at h
      cases h
    | ok ss =>
      obtain ⟨p, hp, hc⟩ := readsOnly_disjunction (readsOnly_operandAt _) _ _ _ ((hread hs).1 h)
      rw [List.append_nil] at hp
      exact ⟨p, signs_eq_ok_iff.1 (hp ▸ hs), hc⟩
  · rintro ⟨p, hs, rfl⟩
    refine (hread (signs_eq_ok_iff.2 hs)).2 ?_
    have hall := readsAll_disjunction (readsAll_operandAt (p.signs.length + 1)) p
      (Nat.le_succ _) [] ⟨by simp, by simp⟩
    rwa [List.append_nil] at hall

end Understudy.Modules.Constraint

namespace Understudy.Modules.Target

open Constraint

/-- **A constraint has a value exactly if its text is written by the grammar**, and then the value is
that of the tree. Otherwise it is at fault, in the same way for every target. -/
theorem eval_eq_ok_iff (t : Target) (text : String) :
    (∀ b, t.eval text = .ok b ↔
      ∃ p : Phrase .or, Splits text.toList p.signs ∧ b = p.value t.matchesTag) ∧
    ((∃ fault, t.eval text = .error fault) ↔
      ¬ ∃ p : Phrase .or, Splits text.toList p.signs) ∧
    ∀ (u : Target) (fault : Fault), t.eval text = .error fault ↔ u.eval text = .error fault := by
  have hok : ∀ (t : Target) (b : Bool), t.eval text = .ok b ↔
      ∃ p : Phrase .or, Splits text.toList p.signs ∧ b = p.value t.matchesTag := by
    intro t b
    rw [eval]
    cases h : Constraint.parse text with
    | ok c =>
      constructor
      · intro hb
        obtain ⟨p, hs, rfl⟩ := parse_eq_ok_iff.1 h
        cases hb
        exact ⟨p, hs, p.eval_constraint _⟩
      · rintro ⟨p, hs, rfl⟩
        rw [parse_eq_ok_iff.2 ⟨p, hs, rfl⟩] at h
        cases h
        exact congrArg Except.ok (p.eval_constraint _)
    | error fault =>
      refine iff_of_false (by rintro ⟨⟩) ?_
      rintro ⟨p, hs, -⟩
      rw [parse_eq_ok_iff.2 ⟨p, hs, rfl⟩] at h
      cases h
  -- The target is not looked at before the text has been read, so neither its value nor its fault
  -- can depend on more than the tree.
  refine ⟨hok t, ?_, fun u fault => ?_⟩
  · constructor
    · rintro ⟨fault, h⟩ ⟨p, hs⟩
      rw [(hok t _).2 ⟨p, hs, rfl⟩] at h
      cases h
    · intro hno
      cases h : t.eval text with
      | ok b =>
        obtain ⟨p, hs, -⟩ := (hok t b).1 h
        exact absurd ⟨p, hs⟩ hno
      | error fault => exact ⟨fault, rfl⟩
  · rw [eval, eval]
    cases Constraint.parse text with
    | ok c => exact iff_of_false (by rintro ⟨⟩) (by rintro ⟨⟩)
    | error found => rfl

end Understudy.Modules.Target

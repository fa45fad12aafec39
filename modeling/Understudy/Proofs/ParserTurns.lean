import Understudy.Proofs.Segments

/-!
# Loops of parsers

A loop of a parser takes turns (`takeTurns`). A turn says that the loop is over, or that it goes on
(`Turn`), and each loop of the parsers of lists is a loop of turns of its own
(`commaListLoop_eq` and its like).

A parser *goes on* from some tokens (`GoesFrom`) if what it leaves is an end of them, also where it
gives up; if it reads as many tokens as it says at the least; and if its counters suffice. What a
loop takes follows from what one turn does:

> **a loop whose turns read a token when they go on needs no more turns than there are tokens**
> (`goes_takeTurns`).
-/

set_option autoImplicit false

namespace Understudy.Source

open Understudy.Source.Parser

/-! ## Turns -/

/-- What comes of a turn of a loop: the loop is over, or it goes on, and what the turn has read is
joined to what the turns behind it read. -/
inductive Turn (σ β : Type) where
  | done (result : β)
  | again (next : σ) (join : β → β)

/-- A loop that takes turns, as many as the counter says at the most. -/
def takeTurns {σ β : Type} (turn : σ → Parser (Turn σ β)) : Nat → σ → Parser β
  | 0, _ => exhaust
  | n + 1, state => do
    match ← turn state with
    | .done result => return result
    | .again next join => return join (← takeTurns turn n next)

/-- A turn of a list with separators between the items, behind the first. -/
def separatedTurn {α : Type} (sep : Kind) (item : Parser α) (_ : Unit) :
    Parser (Turn Unit (List α)) := do
  if ← eat sep then
    let first ← item
    return .again () (first :: ·)
  else return .done []

/-- A turn of a list with commas up to a closing token. -/
def commaTurn {α : Type} (close : Kind) (what : String) (item : Parser α) (_ : Unit) :
    Parser (Turn Unit (List α)) := do
  if ← eat close then return .done []
  let first ← item
  unless ← isAt close do
    let _ ← expect .comma what
  return .again () (first :: ·)

/-- A turn of a list with semicolons up to a closing token. -/
def semicolonTurn {α : Type} (close : Kind) (what : String) (item : Parser α) (_ : Unit) :
    Parser (Turn Unit (List α)) := do
  if ← eat close then return .done []
  if ← eat .semi then return .again () id
  let first ← item
  unless ← isAt close do
    let _ ← expect .semi what
  return .again () (first :: ·)

/-- A turn of type parameters, with the names that wait for their constraint. -/
def typeParamsTurn (type : Parser TypeExpr) (pending : List String) :
    Parser (Turn (List String) (List FieldGroup)) := do
  if ← eat .rbrack then
    if pending.isEmpty then return .done [] else fail "missing type constraint"
  else
    let pending := pending ++ [← ident]
    if ← eat .comma then return .again pending id
    let constraint ← typeElem type
    unless ← isAt .rbrack do
      let _ ← expect .comma "',' or ']'"
    return .again [] (.mk pending constraint :: ·)

/-- A turn of the declarations of a file. -/
def topLevelTurn (_ : Unit) : Parser (Turn Unit (List TopLevel)) := do
  match ← peek with
  | none => return .done []
  | some kind =>
    if kind = .semi then
      advance
      return .again () id
    let first ← topLevel kind
    endOfDecl
    return .again () (first :: ·)

/-! ## Loops that take turns -/

instance : LawfulMonad Parser := by
  refine LawfulMonad.mk' _ (fun p => ?_) (fun a f => rfl) (fun p f g => ?_)
  · funext ts
    rw [map_apply]
    cases p ts <;> rfl
  · funext ts
    rw [bind_apply, bind_apply, bind_apply]
    cases p ts <;> rfl

section Loops

variable {α : Type}

theorem separatedTail_eq (sep : Kind) (item : Parser α) (n : Nat) :
    separatedTail sep item n = takeTurns (separatedTurn sep item) n () := by
  induction n with
  | zero => rfl
  | succ n ih =>
    rw [separatedTail, takeTurns, separatedTurn, bind_assoc, ih]
    refine bind_congr fun eaten => ?_
    cases eaten with
    | false => rfl
    | true =>
      simp only [if_true, bind_assoc]
      rfl

theorem commaListLoop_eq (close : Kind) (what : String) (item : Parser α) (n : Nat) :
    commaListLoop close what item n = takeTurns (commaTurn close what item) n () := by
  induction n with
  | zero => rfl
  | succ n ih =>
    rw [commaListLoop, takeTurns, commaTurn, bind_assoc, ih]
    refine bind_congr fun eaten => ?_
    cases eaten with
    | true => rfl
    | false =>
      simp only [Bool.false_eq_true, if_false, bind_assoc]
      refine bind_congr fun first => bind_congr fun atClose => ?_
      cases atClose with
      | true => rfl
      | false =>
        simp only [Bool.false_eq_true, if_false, bind_assoc]
        rfl

theorem semicolonListLoop_eq (close : Kind) (what : String) (item : Parser α) (n : Nat) :
    semicolonListLoop close what item n = takeTurns (semicolonTurn close what item) n () := by
  induction n with
  | zero => rfl
  | succ n ih =>
    rw [semicolonListLoop, takeTurns, semicolonTurn, bind_assoc, ih]
    refine bind_congr fun eaten => ?_
    cases eaten with
    | true => rfl
    | false =>
      simp only [Bool.false_eq_true, if_false, bind_assoc]
      refine bind_congr fun eaten => ?_
      cases eaten with
      | true => exact (bind_pure _).symm
      | false =>
        simp only [Bool.false_eq_true, if_false, bind_assoc]
        refine bind_congr fun first => bind_congr fun atClose => ?_
        cases atClose with
        | true => rfl
        | false =>
          simp only [Bool.false_eq_true, if_false, bind_assoc]
          rfl

theorem typeParamsLoop_eq (type : Parser TypeExpr) (n : Nat) (pending : List String) :
    typeParamsLoop type n pending = takeTurns (typeParamsTurn type) n pending := by
  induction n generalizing pending with
  | zero => rfl
  | succ n ih =>
    rw [typeParamsLoop, takeTurns, typeParamsTurn, bind_assoc]
    refine bind_congr fun eaten => ?_
    cases eaten with
    | true =>
      simp only [if_true]
      split <;> rfl
    | false =>
      simp only [Bool.false_eq_true, if_false, bind_assoc]
      refine bind_congr fun name => bind_congr fun eaten => ?_
      cases eaten with
      | true => exact (ih _).trans (bind_pure _).symm
      | false =>
        simp only [Bool.false_eq_true, if_false, bind_assoc, ih]
        refine bind_congr fun constraint => bind_congr fun atClose => ?_
        cases atClose with
        | true => rfl
        | false =>
          simp only [Bool.false_eq_true, if_false, bind_assoc]
          rfl

theorem topLevelsLoop_eq (n : Nat) : topLevelsLoop n = takeTurns topLevelTurn n () := by
  induction n with
  | zero => rfl
  | succ n ih =>
    rw [topLevelsLoop, takeTurns, topLevelTurn, bind_assoc, ih]
    refine bind_congr fun next => ?_
    split
    · rfl
    · exact bind_congr fun _ => (bind_pure _).symm
    · next kind hk =>
      have hother : ¬ kind = .semi := hk
      simp only [hother, if_false, bind_assoc]
      rfl

end Loops

/-! ## Going on -/

/-- How a parser goes on from some tokens: it leaves an end of them, having read `least v` tokens at
the least for the value `v`; if it gives up, it does so in front of an end of them; and its counters
suffice for less than `n` tokens. -/
structure GoesFrom {α : Type} (ts : List Token) (n : Nat) (least : α → Nat) (p : Parser α) :
    Prop where
  ok : ∀ v rest, p ts = .ok (v, rest) → rest <:+ ts ∧ rest.length + least v ≤ ts.length
  unmet : ∀ message rest, p ts = .error (.unmet message rest) → rest <:+ ts
  exhausted : p ts = .error .exhausted → n ≤ ts.length

@[inherit_doc GoesFrom]
def Goes {α : Type} (n : Nat) (least : α → Nat) (p : Parser α) : Prop :=
  ∀ ts, GoesFrom ts n least p

section Combinators

variable {α β σ : Type} {m n k : Nat} {ts : List Token} {t : Token} {least less : α → Nat}
  {then_ : β → Nat} {p q : Parser α} {f : α → Parser β}

theorem goesFrom_pure {v : α} (h : least v = 0) : GoesFrom ts n least (pure v) := by
  refine ⟨fun w rest he => ?_, fun message rest he => ?_, fun he => ?_⟩
  · cases he
    exact ⟨List.suffix_refl ts, by rw [h]; exact Nat.le_refl _⟩
  · cases he
  · cases he

theorem goes_pure {v : α} (h : least v = 0) : Goes n least (pure v) := fun _ => goesFrom_pure h

/-- Without a token read nothing is read. -/
theorem goes_unread {v : α} : Goes n (fun _ => 0) (pure v) := goes_pure rfl

theorem goes_fail (message : String) : Goes n least (fail message : Parser α) := by
  intro ts
  refine ⟨fun v rest he => ?_, fun message' rest he => ?_, fun he => ?_⟩
  · cases he
  · cases he
    exact List.suffix_refl ts
  · cases he

/-- A counter that is zero suffices for nothing. -/
theorem goes_exhaust : Goes 0 least (exhaust : Parser α) := by
  intro ts
  refine ⟨fun v rest he => ?_, fun message rest he => ?_, fun _ => Nat.zero_le _⟩
  · cases he
  · cases he

theorem GoesFrom.mono (h : GoesFrom ts n least p) (hn : m ≤ n) (hl : ∀ v, less v ≤ least v) :
    GoesFrom ts m less p := by
  refine ⟨fun v rest he => ?_, h.unmet, fun he => hn.trans (h.exhausted he)⟩
  obtain ⟨hsuffix, hle⟩ := h.ok v rest he
  exact ⟨hsuffix, (Nat.add_le_add_left (hl v) _).trans hle⟩

theorem GoesFrom.congr (h : GoesFrom ts n least p) (hq : q ts = p ts) : GoesFrom ts n least q :=
  ⟨fun v rest he => h.ok v rest (hq ▸ he), fun message rest he => h.unmet message rest (hq ▸ he),
    fun he => h.exhausted (hq ▸ he)⟩

theorem Goes.mono (h : Goes n least p) (hn : m ≤ n) (hl : ∀ v, less v ≤ least v) : Goes m less p :=
  fun ts => (h ts).mono hn hl

/-- **One parser and then another**: what the second one reads is counted on top of what the first
one has read, and its counters have to suffice only for what is left. -/
theorem GoesFrom.andThen (hp : GoesFrom ts n least p)
    (hf : ∀ v, Goes (n - least v) (fun w => then_ w - least v) (f v)) :
    GoesFrom ts n then_ (p >>= f) := by
  cases hr : p ts with
  | error fault =>
    have herror : (p >>= f) ts = .error fault := by rw [bind_apply, hr]
    refine ⟨fun w rest he => ?_, fun message rest he => ?_, fun he => ?_⟩
    · rw [herror] at he
      cases he
    · rw [herror] at he
      cases he
      exact hp.unmet message rest hr
    · rw [herror] at he
      cases he
      exact hp.exhausted hr
  | ok r =>
    obtain ⟨v, mid⟩ := r
    have hnext : (p >>= f) ts = f v mid := by rw [bind_apply, hr]
    obtain ⟨hmid, hread⟩ := hp.ok v mid hr
    refine ⟨fun w rest he => ?_, fun message rest he => ?_, fun he => ?_⟩
    · obtain ⟨hrest, hmore⟩ := (hf v mid).ok w rest (hnext ▸ he)
      exact ⟨hrest.trans hmid, by omega⟩
    · exact ((hf v mid).unmet message rest (hnext ▸ he)).trans hmid
    · have hle := (hf v mid).exhausted (hnext ▸ he)
      omega

theorem GoesFrom.bind (hp : GoesFrom ts n least p)
    (hf : ∀ v, Goes n (fun w => then_ w - least v) (f v)) : GoesFrom ts n then_ (p >>= f) :=
  hp.andThen fun v => (hf v).mono (Nat.sub_le _ _) fun _ => Nat.le_refl _

theorem Goes.bind (hp : Goes n least p) (hf : ∀ v, Goes n (fun w => then_ w - least v) (f v)) :
    Goes n then_ (p >>= f) :=
  fun ts => (hp ts).bind hf

/-- What is read of an optional part is not counted. -/
theorem Goes.map (hp : Goes n least p) (f : α → β) : Goes n (fun _ => 0) (f <$> p) := by
  rw [map_eq_pure_bind]
  exact hp.bind fun _ => goes_pure (Nat.zero_sub _)

theorem goes_ite {c : Prop} [Decidable c] (hp : Goes n least p) (hq : Goes n least q) :
    Goes n least (if c then p else q) := by
  split
  · exact hp
  · exact hq

/-! A look at the tokens reads none of them. -/

theorem Goes.remaining {f : List Token → Parser α} (hf : ∀ ts, GoesFrom ts n least (f ts)) :
    Goes n least (Parser.remaining >>= f) :=
  fun ts => (hf ts).congr rfl

theorem Goes.peek {f : Option Kind → Parser α} (hnone : Goes n least (f none))
    (hsome : ∀ t ts, GoesFrom (t :: ts) n least (f (some t.kind))) :
    Goes n least (Parser.peek >>= f) := by
  intro ts
  cases ts with
  | nil => exact (hnone []).congr rfl
  | cons t ts => exact (hsome t ts).congr rfl

theorem Goes.isAt {f : Bool → Parser α} {kind : Kind} (h : ∀ b, Goes n least (f b)) :
    Goes n least (Parser.isAt kind >>= f) :=
  fun ts => (h (ts.head?.map Token.kind == some kind) ts).congr rfl

/-! A single token. -/

/-- A parser that reads a token and then goes on. -/
theorem GoesFrom.cons (h : GoesFrom ts n (fun v => least v - 1) p) (hq : q (t :: ts) = p ts) :
    GoesFrom (t :: ts) (n + 1) least q := by
  refine ⟨fun v rest he => ?_, fun message rest he => ?_, fun he => ?_⟩
  · obtain ⟨hrest, hle⟩ := h.ok v rest (hq ▸ he)
    refine ⟨hrest.trans (List.suffix_cons t ts), ?_⟩
    rw [List.length_cons]
    omega
  · exact (h.unmet message rest (hq ▸ he)).trans (List.suffix_cons t ts)
  · rw [List.length_cons]
    exact Nat.succ_le_succ (h.exhausted (hq ▸ he))

theorem GoesFrom.advance {f : Unit → Parser α} (hf : Goes n (fun v => least v - 1) (f ())) :
    GoesFrom (t :: ts) (n + 1) least (Parser.advance >>= f) :=
  (hf ts).cons rfl

theorem GoesFrom.skip {f : Unit → Parser α} (hf : Goes n (fun v => least v - 1) (f ())) :
    GoesFrom (t :: ts) n least (Parser.advance >>= f) :=
  (GoesFrom.advance hf).mono (Nat.le_succ n) fun _ => Nat.le_refl _

theorem goes_expect {kind : Kind} {what : String} : Goes n (fun _ => 1) (expect kind what) := by
  intro ts
  have hmissing : expect kind what ts = fail ("expected " ++ what) ts →
      GoesFrom ts n (fun _ => 1) (expect kind what) :=
    (goes_fail ("expected " ++ what) ts).congr
  cases ts with
  | nil => exact hmissing rfl
  | cons t ts =>
    by_cases hk : t.kind = kind
    · have hread : GoesFrom (t :: ts) (n + 1) (fun _ => 1) (expect kind what) :=
        (goes_pure (v := t) rfl ts).cons (expect_of_eq hk what ts)
      exact hread.mono (Nat.le_succ n) fun _ => Nat.le_refl _
    · exact hmissing (by simp [expect, hk])

/-- Behind a token that has to be there less is left for the counters. -/
theorem Goes.expect {f : Token → Parser α} {kind : Kind} {what : String}
    (hf : ∀ t, Goes n (fun v => least v - 1) (f t)) :
    Goes (n + 1) least (Parser.expect kind what >>= f) :=
  fun ts => (goes_expect ts).andThen hf

theorem Goes.eat {f : Bool → Parser α} {kind : Kind} (ht : Goes n (fun v => least v - 1) (f true))
    (hf : Goes n least (f false)) : Goes n least (Parser.eat kind >>= f) := by
  intro ts
  cases ts with
  | nil => exact (hf []).congr rfl
  | cons t ts =>
    by_cases hk : t.kind = kind
    · have hread : GoesFrom (t :: ts) (n + 1) least (Parser.eat kind >>= f) :=
        (ht ts).cons (by rw [bind_apply, eat_of_eq hk])
      exact hread.mono (Nat.le_succ n) fun _ => Nat.le_refl _
    · exact (hf (t :: ts)).congr (by rw [bind_apply, eat_of_ne hk])

theorem goes_ident : Goes n (fun _ => 1) ident := goes_expect.bind fun _ => goes_pure rfl

/-! A run that is kept as text. -/

/-- A parser that goes on at an end of the tokens. -/
theorem GoesFrom.continueAt {f : Unit → Parser α} {run rest : List Token} (happend : run ++ rest = ts)
    (hne : run ≠ []) (hf : Goes n (fun v => least v - 1) (f ())) :
    GoesFrom ts n least (Parser.continueAt rest >>= f) := by
  have hsuffix : rest <:+ ts := ⟨run, happend⟩
  have hshorter : rest.length + 1 ≤ ts.length := by
    have hpos := List.length_pos_of_ne_nil hne
    rw [← happend, List.length_append]
    omega
  have hnext := hf rest
  refine ⟨fun v rest' he => ?_, fun message rest' he => ?_, fun he => ?_⟩
  · obtain ⟨hrest, hle⟩ := hnext.ok v rest' he
    exact ⟨hrest.trans hsuffix, by omega⟩
  · exact (hnext.unmet message rest' he).trans hsuffix
  · exact (hnext.exhausted he).trans hsuffix.length_le

theorem GoesFrom.enclosed {f : Unit → Parser α} {run rest : List Token} {close : Token}
    (hs : Token.splitClose? 0 ts = some (run, close, rest))
    (hf : Goes n (fun v => least v - 1) (f ())) :
    GoesFrom ts n least (Parser.continueAt rest >>= f) := by
  have happend : (run ++ [close]) ++ rest = ts := by
    rw [splitClose?_eq hs]
    simp
  exact .continueAt happend (by simp) hf

theorem GoesFrom.text {f : Unit → Parser α} {delimiters : List Kind} {run rest : List Token}
    (hs : Token.splitBalanced delimiters 0 ts = (run, rest)) (hne : run ≠ [])
    (hf : Goes n (fun v => least v - 1) (f ())) :
    GoesFrom ts n least (Parser.continueAt rest >>= f) := by
  have happend := splitBalanced_append delimiters 0 ts
  rw [hs] at happend
  exact .continueAt happend hne hf

end Combinators

/-! ## Loops go on -/

/-- The number of tokens that a turn reads at the least: one, if the loop goes on. -/
def Turn.least {σ β : Type} (last : Nat) : Turn σ β → Nat
  | .done _ => last
  | .again _ _ => 1

section Loops

variable {α σ β : Type} {n k : Nat} {item : Parser α}

/-- **A loop whose turns read a token when they go on** needs no more turns than there are tokens. -/
theorem goes_takeTurns {turn : σ → Parser (Turn σ β)} (h : ∀ s, Goes n (Turn.least k) (turn s))
    (m : Nat) (s : σ) : Goes (min m n) (fun _ => k) (takeTurns turn m s) := by
  induction m generalizing s with
  | zero =>
    rw [Nat.zero_min]
    exact goes_exhaust
  | succ m ih =>
    intro ts
    refine GoesFrom.andThen ((h s ts).mono (Nat.min_le_right _ _) fun _ => Nat.le_refl _)
      fun outcome => ?_
    cases outcome with
    | done result => exact goes_pure (Nat.sub_self k)
    | again next join =>
      have hrest : Goes (min m n) (fun _ => k) (do
          return join (← takeTurns turn m next)) :=
        (ih next).bind fun result => goes_pure (Nat.sub_self k)
      refine hrest.mono ?_ fun _ => Nat.sub_le _ _
      show min (m + 1) n - 1 ≤ min m n
      omega

/-- With a counter above the number of tokens the turns of a loop do not run out. -/
theorem goesFrom_turns {turn : σ → Parser (Turn σ β)} (h : ∀ s, Goes n (Turn.least k) (turn s))
    (s : σ) (ts : List Token) :
    GoesFrom ts n (fun _ => k) (takeTurns turn (ts.length + 1) s) := by
  have hmin := goes_takeTurns h (ts.length + 1) s ts
  refine ⟨hmin.ok, hmin.unmet, fun he => ?_⟩
  have hle := hmin.exhausted he
  omega

theorem goes_separatedTurn {sep : Kind} (hi : Goes n (fun _ => 1) item) (u : Unit) :
    Goes n (Turn.least 0) (separatedTurn sep item u) :=
  .eat (hi.bind fun _ => goes_pure rfl) (goes_pure rfl)

theorem goes_separated {sep : Kind} (hi : Goes n (fun _ => 1) item) :
    Goes n (fun _ => 1) (separated sep item) := by
  refine hi.bind fun first => .remaining fun ts => ?_
  rw [separatedTail_eq]
  exact (goesFrom_turns (goes_separatedTurn hi) () ts).bind fun _ => goes_pure rfl

theorem goes_idents : Goes n (fun _ => 1) idents := goes_separated goes_ident

theorem goes_commaTurn {close : Kind} {what : String} (hi : Goes n (fun _ => 1) item) (u : Unit) :
    Goes n (Turn.least 1) (commaTurn close what item u) := by
  refine .eat (goes_pure rfl) (hi.bind fun first => .isAt fun atClose => ?_)
  exact goes_ite (goes_pure rfl) (goes_expect.bind fun _ => goes_pure rfl)

theorem goes_commaList {close : Kind} {what : String} (hi : Goes n (fun _ => 1) item) :
    Goes n (fun _ => 1) (commaList close what item) := by
  refine .remaining fun ts => ?_
  rw [commaListLoop_eq]
  exact goesFrom_turns (goes_commaTurn hi) () ts

theorem goes_semicolonTurn {close : Kind} {what : String} (hi : Goes n (fun _ => 1) item)
    (u : Unit) : Goes n (Turn.least 1) (semicolonTurn close what item u) := by
  refine .eat (goes_pure rfl) (.eat (goes_pure rfl) (hi.bind fun first => .isAt fun atClose => ?_))
  exact goes_ite (goes_pure rfl) (goes_expect.bind fun _ => goes_pure rfl)

theorem goes_semicolonList {close : Kind} {what : String} (hi : Goes n (fun _ => 1) item) :
    Goes n (fun _ => 1) (semicolonList close what item) := by
  refine .remaining fun ts => ?_
  rw [semicolonListLoop_eq]
  exact goesFrom_turns (goes_semicolonTurn hi) () ts

end Loops

end Understudy.Source

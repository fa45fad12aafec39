import Understudy.Proofs.ParsedTypes

/-!
# Brackets and the ends of statements

How many brackets are open behind some tokens (`Token.openAfter`), and where the statement ends that
they belong to: in front of the first semicolon outside all brackets (`Token.statementEnd`).

The parser keeps two kinds of runs without looking into them. A run up to the closing bracket closes
what it opens, and the statement goes on behind the bracket. A run up to a delimiter closes what it
opens unless it goes on to the end of the tokens, and since a semicolon is such a delimiter, it
belongs to the statement.
-/

set_option autoImplicit false

namespace Understudy.Source

/-! ## Counting brackets -/

/-- The number of open brackets behind a token, unless it closes one that is not open. -/
def Kind.bracketStep (depth : Nat) (k : Kind) : Option Nat :=
  if k.opens then some (depth + 1)
  else if k.closes then
    match depth with
    | 0 => none
    | depth + 1 => some depth
  else some depth

section BracketStep

variable {k : Kind} {d e : Nat}

theorem bracketStep_opens (ho : k.opens = true) : k.bracketStep d = some (d + 1) := by
  simp [Kind.bracketStep, ho]

theorem bracketStep_closes (ho : ¬ k.opens = true) (hc : k.closes = true) :
    k.bracketStep (d + 1) = some d := by
  simp [Kind.bracketStep, ho, hc]

theorem bracketStep_plain (ho : ¬ k.opens = true) (hc : ¬ k.closes = true) :
    k.bracketStep d = some d := by
  simp [Kind.bracketStep, ho, hc]

/-- A bracket does the same behind more open brackets. -/
theorem bracketStep_add (h : k.bracketStep d = some e) (n : Nat) :
    k.bracketStep (d + n) = some (e + n) := by
  by_cases ho : k.opens = true
  · rw [bracketStep_opens ho] at h ⊢
    cases h
    rw [Nat.add_right_comm]
  · by_cases hc : k.closes = true
    · cases d with
      | zero => simp [Kind.bracketStep, ho, hc] at h
      | succ d =>
        rw [bracketStep_closes ho hc] at h
        cases h
        rw [Nat.add_right_comm, bracketStep_closes ho hc]
    · rw [bracketStep_plain ho hc] at h ⊢
      cases h
      rfl

end BracketStep

/-- The number of open brackets behind some tokens, unless they close one that is not open. -/
def Token.openAfter (depth : Nat) (ts : List Token) : Option Nat :=
  ts.foldlM (fun d t => t.kind.bracketStep d) depth

namespace Token

variable {a b c d e : Nat} {t : Token} {ts us run rest : List Token}

@[simp] theorem openAfter_nil : openAfter d [] = some d := rfl

theorem openAfter_cons : openAfter d (t :: ts) = (t.kind.bracketStep d).bind (openAfter · ts) := rfl

theorem openAfter_append (ts us : List Token) :
    openAfter d (ts ++ us) = (openAfter d ts).bind (openAfter · us) := List.foldlM_append

theorem openAfter_trans (ht : openAfter a ts = some b) (hu : openAfter b us = some c) :
    openAfter a (ts ++ us) = some c := by
  rw [openAfter_append, ht]
  exact hu

/-- Tokens do the same behind more open brackets. -/
theorem openAfter_add (h : openAfter d ts = some e) (n : Nat) :
    openAfter (d + n) ts = some (e + n) := by
  induction ts generalizing d with
  | nil =>
    cases h
    rfl
  | cons t ts ih =>
    rw [openAfter_cons] at h ⊢
    obtain ⟨c, ht, hts⟩ := Option.bind_eq_some_iff.1 h
    rw [bracketStep_add ht]
    exact ih hts

/-- A run up to the closing bracket closes all that it opens. -/
theorem openAfter_splitClose? {close : Token} (h : splitClose? d ts = some (run, close, rest)) :
    openAfter d run = some 0 ∧ close.kind.bracketStep 1 = some 0 := by
  fun_induction splitClose? d ts generalizing run with
  | case1 => cases h
  | case2 d t ts ho ih =>
    obtain ⟨⟨run', rest'⟩, hr, he⟩ := Option.map_eq_some_iff.1 h
    cases he
    refine ⟨?_, (ih hr).2⟩
    rw [openAfter_cons, bracketStep_opens ho]
    exact (ih hr).1
  | case3 t ts ho hc =>
    cases h
    exact ⟨rfl, bracketStep_closes ho hc⟩
  | case4 t ts ho hc d ih =>
    obtain ⟨⟨run', rest'⟩, hr, he⟩ := Option.map_eq_some_iff.1 h
    cases he
    refine ⟨?_, (ih hr).2⟩
    rw [openAfter_cons, bracketStep_closes ho hc]
    exact (ih hr).1
  | case5 d t ts ho hc ih =>
    obtain ⟨⟨run', rest'⟩, hr, he⟩ := Option.map_eq_some_iff.1 h
    cases he
    refine ⟨?_, (ih hr).2⟩
    rw [openAfter_cons, bracketStep_plain ho hc]
    exact (ih hr).1

/-- A run up to a delimiter closes all that it opens, but at the end of the tokens. -/
theorem openAfter_splitBalanced {delimiters : List Kind}
    (h : splitBalanced delimiters d ts = (run, rest)) :
    ∃ e, openAfter d run = some e ∧ (e = 0 ∨ rest = []) := by
  -- The run ends at a closing bracket or a delimiter, both at depth zero, or with the tokens.
  fun_induction splitBalanced delimiters d ts generalizing run rest with
  | case1 d =>
    cases h
    exact ⟨d, rfl, Or.inr rfl⟩
  | case2 d t ts ho run' rest' hs ih =>
    cases h
    obtain ⟨e, he, hend⟩ := ih hs
    refine ⟨e, ?_, hend⟩
    rw [openAfter_cons, bracketStep_opens ho]
    exact he
  | case3 t ts ho hc =>
    cases h
    exact ⟨0, rfl, Or.inl rfl⟩
  | case4 t ts ho hc d run' rest' hs ih =>
    cases h
    obtain ⟨e, he, hend⟩ := ih hs
    refine ⟨e, ?_, hend⟩
    rw [openAfter_cons, bracketStep_closes ho hc]
    exact he
  | case5 d t ts ho hc hd =>
    cases h
    simp only [Bool.and_eq_true, beq_iff_eq] at hd
    exact ⟨0, by rw [hd.1]; rfl, Or.inl rfl⟩
  | case6 d t ts ho hc hd run' rest' hs ih =>
    cases h
    obtain ⟨e, he, hend⟩ := ih hs
    refine ⟨e, ?_, hend⟩
    rw [openAfter_cons, bracketStep_plain ho hc]
    exact he

/-- What follows a run is a delimiter or closes a bracket. -/
theorem next_splitBalanced {delimiters : List Kind}
    (h : splitBalanced delimiters d ts = (run, rest)) :
    ∀ t ∈ rest.head?, t.kind.closes = true ∨ t.kind ∈ delimiters := by
  fun_induction splitBalanced delimiters d ts generalizing run rest with
  | case1 d =>
    cases h
    simp
  | case2 d t ts ho run' rest' hs ih => cases h; exact ih hs
  | case3 t ts ho hc =>
    cases h
    intro u hu
    cases hu
    exact Or.inl hc
  | case4 t ts ho hc d run' rest' hs ih => cases h; exact ih hs
  | case5 d t ts ho hc hd =>
    cases h
    simp only [Bool.and_eq_true] at hd
    intro u hu
    cases hu
    exact Or.inr (by simpa using hd.2)
  | case6 d t ts ho hc hd run' rest' hs ih => cases h; exact ih hs

/-- A run that a semicolon would end neither begins nor ends with one, but at the end of the
tokens. -/
theorem ends_splitBalanced {delimiters : List Kind} (hsemi : .semi ∈ delimiters)
    (h : splitBalanced delimiters d ts = (run, rest)) :
    rest = [] ∨ (run = [] ∧ d = 0) ∨ ∃ t ∈ run.getLast?, t.kind ≠ .semi := by
  have hcons : ∀ {t : Token} {run : List Token},
      (∃ u ∈ run.getLast?, u.kind ≠ .semi) → ∃ u ∈ (t :: run).getLast?, u.kind ≠ .semi := by
    rintro t run ⟨u, hu, hk⟩
    exact ⟨u, by rw [List.getLast?_cons, Option.mem_def.1 hu]; rfl, hk⟩
  -- A semicolon at depth zero is a delimiter, and behind a deeper one a bracket has to follow.
  fun_induction splitBalanced delimiters d ts generalizing run rest with
  | case1 d =>
    cases h
    exact Or.inl rfl
  | case2 d t ts ho run' rest' hs ih =>
    cases h
    rcases ih hs with hr | ⟨-, hd⟩ | hlast
    · exact Or.inl hr
    · exact absurd hd (Nat.succ_ne_zero d)
    · exact Or.inr (Or.inr (hcons hlast))
  | case3 t ts ho hc =>
    cases h
    exact Or.inr (Or.inl ⟨rfl, rfl⟩)
  | case4 t ts ho hc d run' rest' hs ih =>
    cases h
    rcases ih hs with hr | ⟨rfl, -⟩ | hlast
    · exact Or.inl hr
    · refine Or.inr (Or.inr ⟨t, rfl, fun hk => ?_⟩)
      rw [hk] at hc
      cases hc
    · exact Or.inr (Or.inr (hcons hlast))
  | case5 d t ts ho hc hd =>
    cases h
    simp only [Bool.and_eq_true, beq_iff_eq] at hd
    exact Or.inr (Or.inl ⟨rfl, hd.1⟩)
  | case6 d t ts ho hc hd run' rest' hs ih =>
    cases h
    rcases ih hs with hr | ⟨rfl, rfl⟩ | hlast
    · exact Or.inl hr
    · refine Or.inr (Or.inr ⟨t, rfl, fun hk => hd ?_⟩)
      simpa [hk] using hsemi
    · exact Or.inr (Or.inr (hcons hlast))

end Token

/-! ## Ends of statements -/

/-- The number of open brackets behind a token of a statement. -/
def Kind.innerStep (depth : Nat) (k : Kind) : Option Nat :=
  if k = .semi ∧ depth = 0 then none else k.bracketStep depth

theorem innerStep_eq_some {k : Kind} {a b : Nat} (h : k.innerStep a = some b) :
    ¬ (k = .semi ∧ a = 0) ∧ k.bracketStep a = some b := by
  unfold Kind.innerStep at h
  split at h
  · cases h
  · next hk => exact ⟨hk, h⟩

/-- In brackets every token belongs to the statement, and outside every token but a semicolon. -/
theorem innerStep_of_bracketStep {k : Kind} {a b : Nat} (hk : ¬ (k = .semi ∧ a = 0))
    (h : k.bracketStep a = some b) : k.innerStep a = some b := by
  rw [Kind.innerStep, if_neg hk, h]

namespace Token

/-- What is left of some tokens where the statement ends, with `depth` brackets open so far. -/
def statementEnd (depth : Nat) (ts : List Token) : List Token :=
  (splitBalanced [.semi] depth ts).2

variable {a b d : Nat} {t : Token} {ts us run rest : List Token}

@[simp] theorem statementEnd_nil : statementEnd d [] = [] := rfl

/-- A statement goes on over its tokens. -/
theorem statementEnd_cons (h : t.kind.innerStep a = some b) :
    statementEnd a (t :: ts) = statementEnd b ts := by
  obtain ⟨hsemi, hstep⟩ := innerStep_eq_some h
  unfold statementEnd
  rw [splitBalanced.eq_def]
  by_cases ho : t.kind.opens = true
  · rw [bracketStep_opens ho] at hstep
    cases hstep
    simp [ho]
  · by_cases hc : t.kind.closes = true
    · cases a with
      | zero => simp [Kind.bracketStep, ho, hc] at hstep
      | succ a =>
        rw [bracketStep_closes ho hc] at hstep
        cases hstep
        simp [ho, hc]
    · rw [bracketStep_plain ho hc] at hstep
      cases hstep
      have hdelimiter : (a == 0 && [Kind.semi].contains t.kind) = false := by
        rw [Bool.and_eq_false_iff]
        rw [not_and_or] at hsemi
        rcases hsemi with hk | ha
        · exact Or.inr (by simpa using hk)
        · exact Or.inl (by simpa using ha)
      simp only [ho, hc, hdelimiter, Bool.false_eq_true, if_false]

theorem statementEnd_semi (h : t.kind = .semi) : statementEnd 0 (t :: ts) = t :: ts := by
  unfold statementEnd
  rw [splitBalanced.eq_def]
  simp [h, Kind.opens, Kind.closes]

/-- A statement goes on behind a bracket that is closed, `a` more brackets being open around it. -/
theorem statementEnd_splitClose? {close : Token} (h : splitClose? d ts = some (run, close, rest)) :
    statementEnd (a + d + 1) ts = statementEnd a rest := by
  fun_induction splitClose? d ts generalizing run with
  | case1 => cases h
  | case2 d t ts ho ih =>
    obtain ⟨⟨run', rest'⟩, hr, he⟩ := Option.map_eq_some_iff.1 h
    cases he
    rw [statementEnd_cons (innerStep_of_bracketStep (by simp) (bracketStep_opens ho))]
    exact ih hr
  | case3 t ts ho hc =>
    cases h
    exact statementEnd_cons (innerStep_of_bracketStep (by simp) (bracketStep_closes ho hc))
  | case4 t ts ho hc d ih =>
    obtain ⟨⟨run', rest'⟩, hr, he⟩ := Option.map_eq_some_iff.1 h
    cases he
    rw [statementEnd_cons (innerStep_of_bracketStep (by simp) (bracketStep_closes ho hc))]
    exact ih hr
  | case5 d t ts ho hc ih =>
    obtain ⟨⟨run', rest'⟩, hr, he⟩ := Option.map_eq_some_iff.1 h
    cases he
    rw [statementEnd_cons (innerStep_of_bracketStep (by simp) (bracketStep_plain ho hc))]
    exact ih hr

/-- A statement goes on behind a run up to a delimiter, if semicolons are delimiters. -/
theorem statementEnd_splitBalanced {delimiters : List Kind} (hsemi : .semi ∈ delimiters)
    (h : splitBalanced delimiters d ts = (run, rest)) :
    statementEnd (a + d) ts = statementEnd a rest := by
  -- Only a semicolon outside of all brackets ends a statement, and there it is a delimiter.
  fun_induction splitBalanced delimiters d ts generalizing run rest with
  | case1 =>
    cases h
    rfl
  | case2 d t ts ho run' rest' hs ih =>
    cases h
    refine (statementEnd_cons (innerStep_of_bracketStep ?_ (bracketStep_opens ho))).trans (ih hs)
    rintro ⟨hk, -⟩
    rw [hk] at ho
    cases ho
  | case3 =>
    cases h
    rfl
  | case4 t ts ho hc d run' rest' hs ih =>
    cases h
    refine Eq.trans (statementEnd_cons (innerStep_of_bracketStep ?_ (bracketStep_closes ho hc)))
      (ih hs)
    rintro ⟨hk, -⟩
    rw [hk] at hc
    cases hc
  | case5 d t ts ho hc hd =>
    cases h
    simp only [Bool.and_eq_true, beq_iff_eq] at hd
    rw [hd.1, Nat.add_zero]
  | case6 d t ts ho hc hd run' rest' hs ih =>
    cases h
    refine (statementEnd_cons (innerStep_of_bracketStep ?_ (bracketStep_plain ho hc))).trans (ih hs)
    rintro ⟨hk, hz⟩
    exact hd (by simp [Nat.eq_zero_of_add_eq_zero_left hz, hk, hsemi])

end Token

end Understudy.Source

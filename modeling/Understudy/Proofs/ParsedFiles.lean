import Understudy.Proofs.FileShape
import Understudy.Proofs.ParsedTypes

/-!
# What parsing a file guarantees

Every file that is parsed is made of names, types and literals that can be written down again.

> **A file that is parsed has the shape of a file** (`parse_fits`).

The tokens of a source text are `Scanned`: they come from lexemes that follow each other in the
text. This is what the texts that the parser keeps need, since a literal with a sign is kept with
the layout between the two.
-/

set_option autoImplicit false

namespace Understudy.Source

open Understudy.Source.Parser

/-! ## Type parameters

The parser takes a bracket behind the name of a declared type for type parameters only if the
token behind the first name tells. So it does when they are written down again. -/

theorem IsTermOf.firstTerm_eq {ok : Leaf → Prop} {erased : Bool} {t : TypeExpr}
    (h : IsTermOf (IsType ok erased) t) : t.firstTerm = t := by
  cases h with
  | type h => cases h <;> rfl
  | tilde _ => rfl

/-- A constraint begins with a term. -/
theorem typeElem_first {type : Parser TypeExpr} {ts rest : List Token} {c : TypeExpr}
    (he : typeElem type ts = .ok (c, rest)) :
    ∃ term mid, typeTerm type ts = .ok (term, mid) ∧
      (c = term ∨ ∃ more, c = .union (term :: more)) := by
  obtain ⟨terms, mid, hs, he⟩ := bind_eq_ok he
  obtain ⟨term, mid', hterm, hs⟩ := bind_eq_ok hs
  obtain ⟨_, _, _, hs⟩ := bind_eq_ok hs
  obtain ⟨more, _, _, hs⟩ := bind_eq_ok hs
  cases hs
  refine ⟨term, mid', hterm, ?_⟩
  cases more with
  | nil =>
    cases he
    exact Or.inl rfl
  | cons next more =>
    cases he
    exact Or.inr ⟨next :: more, rfl⟩

/-- Names that wait for their constraint get another one before they have it. -/
theorem typeParamsLoop_pending {type : Parser TypeExpr} {n : Nat} {pending : List String}
    (hne : pending ≠ []) {ts rest : List Token} {fs : List FieldGroup}
    (he : typeParamsLoop type n pending ts = .ok (fs, rest)) :
    ∃ f gs, fs = f :: gs ∧ pending.length < f.names.length := by
  -- In each round one name more waits, or the constraint of all of them is read.
  induction n generalizing pending ts with
  | zero => cases he
  | succ n ih =>
    rw [typeParamsLoop] at he
    obtain ⟨b, _, _, he⟩ := bind_eq_ok he
    split at he
    · rw [if_neg (by simpa using hne)] at he
      cases he
    · obtain ⟨name, _, _, he⟩ := bind_eq_ok he
      obtain ⟨c, _, _, he⟩ := bind_eq_ok he
      split at he
      · obtain ⟨f, gs, rfl, hlt⟩ := ih (by simp) he
        exact ⟨f, gs, rfl, by simp at hlt; omega⟩
      · obtain ⟨t, _, _, he⟩ := bind_eq_ok he
        obtain ⟨d, _, _, he⟩ := bind_eq_ok he
        have hrest : ∀ {ts : List Token}, (do
            return .mk (pending ++ [name]) t :: (← typeParamsLoop type n []) : Parser _) ts =
              .ok (fs, rest) → ∃ f gs, fs = f :: gs ∧ pending.length < f.names.length := by
          intro ts he
          obtain ⟨gs, _, _, he⟩ := bind_eq_ok he
          cases he
          exact ⟨_, gs, rfl, by simp⟩
        split at he
        · exact hrest he
        · obtain ⟨_, _, _, he⟩ := bind_eq_ok he
          exact hrest he

section TypeParams

variable {ok : Leaf → Prop} {P : List Token → Prop} (hP : Admits ok P)
include hP

theorem typeElem_unsigned {t : Token} {ts rest : List Token} {c : TypeExpr} (h : P (t :: ts))
    (hk : t.kind ∉ signedKinds) (he : typeElem typeExpr (t :: ts) = .ok (c, rest)) :
    c.firstTerm.isSigned = false := by
  obtain ⟨term, mid, hterm, hc⟩ := typeElem_first he
  have hshape := (gives_typeTerm hP (gives_typeExpr hP) _ _ _ h hterm).1
  have hunsigned : term.isSigned = false := by
    obtain ⟨b, ts', hb, hterm⟩ := bind_eq_ok hterm
    cases b with
    | true =>
      obtain ⟨elem, _, _, hterm⟩ := bind_eq_ok hterm
      cases hterm
      rfl
    | false =>
      have hts : ts' = t :: ts := by
        rw [eat] at hb
        split at hb <;> cases hb
        rfl
      subst hts
      exact typeAt_unsigned hP h hk hterm
  rcases hc with rfl | ⟨more, rfl⟩
  · rwa [hshape.firstTerm_eq]
  · exact hunsigned

theorem typeParams_opens {ts rest : List Token} {fs : List FieldGroup} (h : P ts)
    (hb : beginsTypeParams ts = true) (he : typeParams typeExpr ts = .ok (fs, rest)) :
    OpensTypeParams fs := by
  match ts with
  | [] | [_] | [_, _] => simp [beginsTypeParams] at hb
  | t₁ :: t₂ :: t₃ :: ts =>
    have hkinds : t₂.kind = .ident ∧ t₃.kind ∈ [Kind.ident, .comma, .tilde, .kwInterface, .lbrack,
        .kwFunc, .kwMap, .kwChan, .kwStruct] := by
      rw [beginsTypeParams] at hb
      split at hb
      · next heq =>
        simp only [List.take_succ_cons, List.take_zero, List.map_cons, List.map_nil, List.cons.injEq,
          and_true] at heq
        exact ⟨heq.2.1, by simpa [heq.2.2] using hb⟩
      · cases hb
    obtain ⟨hident, hthird⟩ := hkinds
    obtain ⟨open', us, hopen, he⟩ := bind_eq_ok he
    obtain ⟨vs, us', hvs, he⟩ := bind_eq_ok he
    have hus : us = t₂ :: t₃ :: ts := by
      rw [expect] at hopen
      split at hopen <;> cases hopen
      rfl
    subst hus
    cases hvs
    -- The first name and what stands behind it.
    have hrbrack : t₂.kind ≠ .rbrack := by
      rw [hident]
      decide
    rw [typeParamsLoop, bind_apply, eat_of_ne hrbrack] at he
    simp only [Bool.false_eq_true, if_false, bind_apply, ident_of_eq hident, List.nil_append] at he
    by_cases hcomma : t₃.kind = .comma
    · simp only [eat_of_eq hcomma, if_true] at he
      obtain ⟨f, gs, rfl, hlt⟩ := typeParamsLoop_pending (by simp) he
      intro g hg
      cases hg
      exact Or.inl hlt
    · simp only [eat_of_ne hcomma, Bool.false_eq_true, if_false] at he
      obtain ⟨c, mid, hc, he⟩ := bind_eq_ok he
      have hsigned : t₃.kind ∉ signedKinds := by
        have hall : ∀ k ∈ [Kind.ident, .comma, .tilde, .kwInterface, .lbrack, .kwFunc, .kwMap,
          .kwChan, .kwStruct], k ∉ signedKinds := by decide
        exact hall _ hthird
      have hunsigned := typeElem_unsigned hP (hP.tail (hP.tail h)) hsigned hc
      obtain ⟨b, _, _, he⟩ := bind_eq_ok he
      have hrest : ∀ {us : List Token} {m : Nat}, (do
          return .mk [t₂.text] c :: (← typeParamsLoop typeExpr m []) : Parser _) us =
            .ok (fs, rest) → OpensTypeParams fs := by
        intro us m he
        obtain ⟨gs, _, _, he⟩ := bind_eq_ok he
        cases he
        intro g hg
        cases hg
        exact Or.inr hunsigned
      split at he
      · exact hrest he
      · obtain ⟨_, _, _, he⟩ := bind_eq_ok he
        exact hrest he

end TypeParams

/-! ## Literals -/

theorem sound_of_next {c : Char} {cs rest text : List Char} {k : Kind}
    (h : next c cs = (.token k text, rest)) (hk : k ≠ .ident) : Sound [.token k text] where
  stand {d} hd new := by
    have happend := next_append c cs
    rw [h] at happend
    have hstand : (Lexeme.token k text).StandsBefore ([] ++ rest) := ⟨c, cs, happend, h⟩
    exact ⟨hstand.before_boundary rfl (fun _ => settled_of_next h hk) hd new, trivial⟩
  good := List.forall_mem_singleton.2 rfl

/-- A property of token lists that says of a sign and the number behind it how they stand in the
source text. -/
structure AdmitsText (ok : Leaf → Prop) (P : List Token → Prop) : Prop extends Admits ok P where
  signed : ∀ {t u : Token} {ts : List Token}, P (t :: u :: ts) →
    t.kind = .plus ∨ t.kind = .minus → u.kind = .number →
    ∃ gap : List Lexeme, (∀ l ∈ gap, l.isLayout = true) ∧ u.gap.toList = spellLexemes gap ∧
      Sound (.token t.kind t.text.toList :: (gap ++ [.token u.kind u.text.toList]))

/-- An initializer is a run of tokens. -/
theorem initializer_eq_ok {ts rest : List Token} {v : Initializer}
    (h : initializer ts = .ok (v, rest)) :
    ∃ run, run ≠ [] ∧ Token.splitBalanced [.comma, .semi] 0 ts = (run, rest) ∧
      v = { text := Token.spell run, isLiteral := isLiteralRun run } := by
  rw [initializer, bind_apply, remaining_apply] at h
  dsimp only at h
  generalize Token.splitBalanced [.comma, .semi] 0 ts = r at h ⊢
  obtain ⟨run, behind⟩ := r
  cases run with
  | nil => cases h
  | cons t run =>
    cases h
    exact ⟨_, List.cons_ne_nil t run, rfl, rfl⟩

section Specs

variable {ok : Leaf → Prop} {P : List Token → Prop} (hP : AdmitsText ok P)
include hP

theorem literalRun_parsed {run rest : List Token} (h : P (run ++ rest)) :
    Initializer.Fits { text := Token.spell run, isLiteral := isLiteralRun run } := by
  intro hl
  match run with
  | [] => cases hl
  | [t] =>
    have hl : t.kind.isLiteral = true := hl
    have hk : t.kind ≠ .semi ∧ t.kind ≠ .ident := by
      constructor <;> intro he <;> rw [he] at hl <;> cases hl
    obtain ⟨c, cs, r, hn⟩ := (hP.lexed h).resolve_left hk.1
    exact ⟨_, .basic hl, sound_of_next hn hk.2, by simp [Token.spell, Token.spellAll]⟩
  | [t, u] =>
    have hl : ((t.kind == .plus || t.kind == .minus) && u.kind == .number) = true := hl
    simp only [Bool.and_eq_true, Bool.or_eq_true, beq_iff_eq] at hl
    obtain ⟨gap, hg, hgap, hs⟩ := hP.signed h hl.1 hl.2
    rw [hl.2] at hs
    exact ⟨_, .signed hl.1 hg, hs, by simp [Token.spell, Token.spellAll, hgap]⟩
  | _ :: _ :: _ :: _ => cases hl

theorem gives_initializer : Gives P initializer Initializer.Fits := by
  intro ts v rest h he
  obtain ⟨run, -, hs, rfl⟩ := initializer_eq_ok he
  have happend := splitBalanced_append [.comma, .semi] 0 ts
  rw [hs] at happend
  have hrun : P (run ++ rest) := by rwa [happend]
  exact ⟨literalRun_parsed hP hrun, hP.suffix ⟨run, happend⟩ h⟩

/-! ## Entries -/

theorem gives_valueSpec : Gives P valueSpec (ValueSpec.Fits ok) := by
  have htype : Gives P (some <$> typeExpr)
      fun type => ∀ t ∈ type, IsType ok true t :=
    (gives_typeExpr hP.toAdmits).map fun t h u hu => by
      cases hu
      exact h
  have hnone : Gives P (pure none)
      fun type : Option TypeExpr => ∀ t ∈ type, IsType ok true t :=
    gives_pure (by simp)
  have hvalues : ∀ names : List String, (∀ n ∈ names, ok (.name n)) → ∀ type : Option TypeExpr,
      (∀ t ∈ type, IsType ok true t) →
      Gives P (do
        let values ← if ← eat .assign then separated .comma initializer else pure []
        return { names, type, values }) (ValueSpec.Fits ok) := by
    intro names hn type ht
    refine (gives_eat hP.toAdmits .assign).bind fun b _ => gives_branch
      (fun _ => (gives_separated hP.toAdmits (gives_initializer hP) .comma).mono fun _ h => h.2)
      (fun _ => gives_pure (by simp)) fun values hv => gives_pure ⟨hn, ht, hv⟩
  refine (gives_idents hP.toAdmits).bind fun names hn => gives_peek.bind fun kind _ => ?_
  split
  · exact hnone.bind fun type ht => hvalues names hn.2 type ht
  · exact hnone.bind fun type ht => hvalues names hn.2 type ht
  · exact hnone.bind fun type ht => hvalues names hn.2 type ht
  · exact hnone.bind fun type ht => hvalues names hn.2 type ht
  · exact htype.bind fun type ht => hvalues names hn.2 type ht

theorem gives_typeSpec : Gives P typeSpec (TypeSpec.Fits ok) := by
  refine (gives_name hP.toAdmits).bind fun name hn => ?_
  have hrest : ∀ params : List FieldGroup, (∀ f ∈ params, IsTypeParam ok true f) →
      OpensTypeParams params → Gives P (do
        let isAlias ← eat .assign
        return { name, typeParams := params, isAlias, type := ← typeExpr })
        (TypeSpec.Fits ok) := by
    intro params hp ho
    refine (gives_eat hP.toAdmits .assign).bind fun b _ => ?_
    exact (gives_typeExpr hP.toAdmits).bind fun t ht => gives_pure ⟨hn, hp, ho, ht⟩
  intro ts spec rest h he
  obtain ⟨us, mid, hus, he⟩ := bind_eq_ok he
  cases hus
  split at he
  · next hb =>
    obtain ⟨params, mid', hparams, he⟩ := bind_eq_ok he
    obtain ⟨hp, hmid⟩ :=
      gives_typeParams hP.toAdmits (gives_typeExpr hP.toAdmits) _ _ _ h hparams
    exact hrest params hp (typeParams_opens hP.toAdmits h hb hparams) _ _ _ hmid he
  · obtain ⟨params, mid', hparams, he⟩ := bind_eq_ok he
    cases hparams
    exact hrest [] (by simp) (by simp [OpensTypeParams]) _ _ _ h he

theorem gives_body : Gives P body fun _ => True := by
  refine gives_remaining.bind fun ts hts => ?_
  split
  · exact gives_fail _
  · next t ts =>
    split
    · exact gives_fail _
    · next run close rest hs =>
      have hrest : P rest := by
        refine hP.suffix ⟨run ++ [close], ?_⟩ (hP.tail hts)
        rw [splitClose?_eq hs, List.append_assoc, List.singleton_append]
      exact (gives_continueAt hrest).bind fun _ _ => gives_pure trivial

theorem gives_funcDecl : Gives P funcDecl (FuncDecl.Fits ok) := by
  have hA := hP.toAdmits
  have ht := gives_typeExpr hA
  have hreceiver : Gives P (some <$> params typeExpr)
      fun receiver => ∀ fs ∈ receiver, IsParams ok true fs :=
    (gives_params hA ht).map fun fs h gs hg => by
      cases hg
      exact h
  refine (gives_expect hA _ _).bind fun _ _ => (gives_isAt _).bind fun b _ => ?_
  refine gives_branch (fun _ => hreceiver) (fun _ => gives_pure (by simp)) fun receiver hr => ?_
  refine (gives_name hA).bind fun name hn => (gives_isAt _).bind fun c _ => ?_
  refine gives_branch (fun _ => gives_typeParams hA ht) (fun _ => gives_pure (by simp))
    fun typeParams hp => ?_
  refine (gives_params hA ht).bind fun ps hps => (gives_results hA ht).bind fun rs hrs => ?_
  refine (gives_isAt _).bind fun d _ => gives_branch (Q := fun _ => True)
    (fun _ => (gives_body hP).map fun _ _ => trivial) (fun _ => gives_pure trivial) fun body _ => ?_
  exact gives_pure ⟨hr, hn, hp, isSignatureOf_parsed hps hrs⟩

/-- Reads the path of an import with a name. -/
def importPath (name : Option String) : Parser Import := do
  match ← remaining with
  | t :: rest =>
    if t.kind == .string || t.kind == .rawString then
      continueAt rest
      return { name, path := unquote t.text }
    else fail "expected import path"
  | [] => fail "expected import path"

theorem gives_importSpec : Gives P importSpec (Import.Fits ok) := by
  have hA := hP.toAdmits
  have hrest : ∀ name : Option String, (∀ n ∈ name, n = "." ∨ ok (.name n)) →
      Gives P (importPath name) (Import.Fits ok) := by
    intro name hn
    refine gives_remaining.bind fun ts hts => ?_
    split
    · refine gives_ite (fun _ => ?_) fun _ => gives_fail _
      exact (gives_continueAt (hA.tail hts)).bind fun _ _ => gives_pure hn
    · exact gives_fail _
  refine gives_peek.bind fun kind _ => ?_
  split
  · refine Gives.bind (Q := fun name => ∀ n ∈ name, n = "." ∨ ok (.name n)) ?_ hrest
    refine (gives_name hA).map fun s hs n hn => ?_
    cases hn
    exact Or.inr hs
  · refine (gives_advance hA).bind fun _ _ => Gives.bind (gives_pure ?_) hrest
    intro n hn
    cases hn
    exact Or.inl rfl
  · exact Gives.bind (gives_pure (by simp)) hrest

/-! ## Files -/

theorem gives_group {α : Type} {spec : Parser α} {Q : α → Prop} (h : Gives P spec Q) :
    Gives P (group spec) fun xs => ∀ x ∈ xs, Q x := by
  refine (gives_eat hP.toAdmits _).bind fun b _ => gives_ite (fun _ => ?_) fun _ => ?_
  · exact gives_semicolonList hP.toAdmits h _ _
  · exact h.bind fun x hx => gives_pure (List.forall_mem_singleton.2 hx)

/-- What is read as a part of a file. -/
def TopLevel.Fits (ok : Leaf → Prop) : TopLevel → Prop
  | .imports is => ∀ i ∈ is, i.Fits ok
  | .decl d => d.Fits ok

theorem gives_topLevel (kind : Kind) : Gives P (topLevel kind) (TopLevel.Fits ok) := by
  have hA := hP.toAdmits
  unfold topLevel
  split
  · refine (gives_advance hA).bind fun _ _ => ?_
    exact (gives_group hP (gives_importSpec hP)).bind fun is h => gives_pure h
  · refine (gives_advance hA).bind fun _ _ => ?_
    exact (gives_group hP (gives_valueSpec hP)).bind fun specs h => gives_pure h
  · refine (gives_advance hA).bind fun _ _ => ?_
    exact (gives_group hP (gives_valueSpec hP)).bind fun specs h => gives_pure h
  · refine (gives_advance hA).bind fun _ _ => ?_
    exact (gives_group hP (gives_typeSpec hP)).bind fun specs h => gives_pure h
  · exact (gives_funcDecl hP).bind fun decl h => gives_pure h
  · exact gives_fail _

theorem gives_endOfDecl : Gives P endOfDecl fun _ => True := by
  refine gives_peek.bind fun kind _ => ?_
  split
  · exact gives_pure trivial
  · refine (gives_eat hP.toAdmits _).bind fun b _ => ?_
    exact gives_ite (fun _ => gives_pure trivial) fun _ => gives_fail _

theorem gives_topLevelsLoop (n : Nat) :
    Gives P (topLevelsLoop n) fun items => ∀ item ∈ items, item.Fits ok := by
  induction n with
  | zero => exact gives_exhaust
  | succ n ih =>
    rw [topLevelsLoop]
    refine gives_peek.bind fun kind _ => ?_
    split
    · exact gives_pure (by simp)
    · exact (gives_advance hP.toAdmits).bind fun _ _ => ih
    · refine (gives_topLevel hP _).bind fun item h => (gives_endOfDecl hP).bind fun _ _ => ?_
      exact ih.bind fun items hs => gives_pure (List.forall_mem_cons.2 ⟨h, hs⟩)

theorem gives_file : Gives P file (SourceFile.Fits ok) := by
  refine gives_remaining.bind fun _ _ => (gives_expect hP.toAdmits _ _).bind fun _ _ => ?_
  refine (gives_name hP.toAdmits).bind fun package hn => (gives_endOfDecl hP).bind fun _ _ => ?_
  refine gives_remaining.bind fun _ _ => (gives_topLevelsLoop hP _).bind fun items h => ?_
  refine gives_pure ⟨hn, fun i hi => ?_, fun d hd => ?_⟩
  · obtain ⟨item, hm, hi⟩ := List.mem_flatMap.1 hi
    cases item with
    | imports is => exact h _ hm i hi
    | decl d => cases hi
  · obtain ⟨item, hm, hd⟩ := List.mem_filterMap.1 hd
    cases item with
    | imports is => cases hd
    | decl d' =>
      cases hd
      exact h _ hm

end Specs

/-! ## The tokens of a text -/

namespace Scanner

/-- Where no line can end, all layout is kept before the next token. -/
theorem gap_after_layout {s : Scanner} (hs : s.pending = false) {ls : List Lexeme}
    (hl : ∀ l ∈ ls, l.isLayout = true) : (s.after ls).gap = s.gap ++ spellLexemes ls := by
  induction ls generalizing s with
  | nil => simp
  | cons l ls ih =>
    obtain ⟨hl, hrest⟩ := List.forall_mem_cons.1 hl
    cases l with
    | layout text =>
      have hp : (s.step (.layout text)).pending = false := by simp [step, hs]
      rw [after_cons, ih hp hrest]
      simp [step, hs]
    | token kind text => exact absurd hl Bool.false_ne_true
    | bad text => exact absurd hl Bool.false_ne_true

/-- The first token of a text is the end of a line, or the first lexeme behind some layout. -/
theorem tokensToEnd_cons {s : Scanner} {ls : List Lexeme} (hg : ∀ l ∈ ls, l.isBad = false)
    {t : Token} {ts : List Token} (h : s.tokensToEnd ls = t :: ts) :
    (t.kind = .semi ∧ ∃ s' ms, ms <:+ ls ∧ ts = tokensToEnd s' ms) ∨
      ∃ gap k text ms, ls = gap ++ .token k text :: ms ∧ (∀ l ∈ gap, l.isLayout = true) ∧
        t = (s.after gap).token k text ∧
        ts = ((s.after gap).step (.token k text)).tokensToEnd ms := by
  induction ls generalizing s with
  | nil =>
    rw [tokensToEnd, tokens_nil, after_nil, List.nil_append, finish] at h
    split at h
    · obtain ⟨rfl, rfl⟩ := List.cons.inj h
      exact Or.inl ⟨rfl, start, [], List.suffix_refl _, rfl⟩
    · cases h
  | cons l ls ih =>
    obtain ⟨hl, hrest⟩ := List.forall_mem_cons.1 hg
    cases l with
    | bad text => cases hl
    | token k text =>
      obtain ⟨rfl, rfl⟩ := List.cons.inj h
      exact Or.inr ⟨[], k, text, ls, rfl, by simp, rfl, rfl⟩
    | layout text =>
      rw [tokensToEnd, tokens, after_cons, emit] at h
      split at h
      · obtain ⟨rfl, rfl⟩ := List.cons.inj h
        exact Or.inl ⟨rfl, _, ls, List.suffix_cons _ _, rfl⟩
      · rcases ih hrest h with ⟨hk, s', ms, hms, hts⟩ | ⟨gap, k, t', ms, rfl, hgap, ht, hts⟩
        · exact Or.inl ⟨hk, s', ms, hms.trans (List.suffix_cons _ _), hts⟩
        · exact Or.inr ⟨.layout text :: gap, k, t', ms, rfl,
            List.forall_mem_cons.2 ⟨rfl, hgap⟩, ht, hts⟩

end Scanner

theorem StandBefore.suffix {ls ms : List Lexeme} (h : StandBefore ls []) (hs : ms <:+ ls) :
    StandBefore ms [] := by
  obtain ⟨before, rfl⟩ := hs
  exact (standBefore_append.1 h).2

/-- Whether tokens are those of the rest of a text. -/
def Scanned (ts : List Token) : Prop :=
  ∃ (s : Scanner) (ls : List Lexeme), StandBefore ls [] ∧ (∀ l ∈ ls, l.isBad = false) ∧
    ts = s.tokensToEnd ls

section Scanned

variable {t u : Token} {ts : List Token}

theorem Scanned.tail (h : Scanned (t :: ts)) : Scanned ts := by
  obtain ⟨s, ls, hstand, hg, hts⟩ := h
  rcases Scanner.tokensToEnd_cons hg hts.symm with ⟨-, s', ms, hms, rfl⟩ |
    ⟨gap, k, text, ms, rfl, -, -, rfl⟩
  · exact ⟨s', ms, hstand.suffix hms, fun l hl => hg l (hms.subset hl), rfl⟩
  · have hms : ms <:+ gap ++ .token k text :: ms :=
      (List.suffix_cons _ _).trans (List.suffix_append _ _)
    exact ⟨_, ms, hstand.suffix hms, fun l hl => hg l (hms.subset hl), rfl⟩

theorem Scanned.lexed (h : Scanned (t :: ts)) : t.IsLexed := by
  obtain ⟨s, ls, hstand, hg, hts⟩ := h
  rcases Scanner.tokensToEnd_cons hg hts.symm with ⟨hk, -⟩ |
    ⟨gap, k, text, ms, rfl, -, rfl, -⟩
  · exact Or.inl hk
  · obtain ⟨c, cs, -, hn⟩ := (standBefore_append.1 hstand).2.1
    exact Or.inr ⟨c, cs, _, by simpa using hn⟩

theorem Scanned.signed (h : Scanned (t :: u :: ts)) (ht : t.kind = .plus ∨ t.kind = .minus)
    (hu : u.kind = .number) :
    ∃ gap : List Lexeme, (∀ l ∈ gap, l.isLayout = true) ∧ u.gap.toList = spellLexemes gap ∧
      Sound (.token t.kind t.text.toList :: (gap ++ [.token u.kind u.text.toList])) := by
  obtain ⟨s, ls, hstand, hg, hts⟩ := h
  rcases Scanner.tokensToEnd_cons hg hts.symm with ⟨hk, -⟩ |
    ⟨gap₀, k, text, ms, rfl, -, rfl, hrest⟩
  · rw [hk] at ht
    simp at ht
  · have hg := (List.forall_mem_append.1 hg).2
    have hstand := (standBefore_append.1 hstand).2
    generalize s.after gap₀ = s at hrest ht
    rcases Scanner.tokensToEnd_cons (List.forall_mem_cons.1 hg).2 hrest.symm with ⟨hk, -⟩ |
      ⟨gap, k', number, ms, rfl, hgap, rfl, -⟩
    · rw [hk] at hu
      cases hu
    · have hpending : (s.step (.token k text)).pending = false := by
        rcases ht with ht | ht <;> (rw [Scanner.token_kind] at ht; subst ht; rfl)
      refine ⟨gap, hgap, ?_, ?_⟩
      · rw [Scanner.token_gap, String.toList_ofList, Scanner.gap_after_layout hpending hgap]
        rfl
      · have hall : Lexeme.token k text :: (gap ++ .token k' number :: ms) =
            (Lexeme.token k text :: (gap ++ [.token k' number])) ++ ms := by simp
        rw [hall] at hstand hg
        have hstand := (standBefore_append.1 hstand).1
        have hg := (List.forall_mem_append.1 hg).1
        simp only [Scanner.token_kind, Scanner.token_text, String.toList_ofList]
        refine ⟨fun hd new => hstand.before_boundary hg (fun l hl => ?_) hd new, hg⟩
        -- A number is settled, so the two tokens stand before every boundary.
        obtain ⟨c, cs, -, hn⟩ := (standBefore_append.1 hstand.2).2.1
        have hlast : (Lexeme.token k text :: (gap ++ [.token k' number])).getLast? =
            some (.token k' number) := by
          rw [← List.cons_append]
          exact List.getLast?_concat
        rw [hlast] at hl
        obtain rfl := Option.some.inj hl
        refine settled_of_next hn ?_
        rintro rfl
        cases hu

theorem admitsText_scanned : AdmitsText Leaf.Parsed Scanned where
  tail := Scanned.tail
  lexed := Scanned.lexed
  name h hk := ⟨h.lexed.word hk, h.lexed.word hk⟩
  length _ := trivial
  arity _ := trivial
  unsupported _ := id
  signed := Scanned.signed

end Scanned

theorem parse_eq_ok {source : String} {parsed : SourceFile}
    (h : SourceFile.parse source = .ok parsed) :
    ∃ ts rest, tokenize source = .ok ts ∧ file ts = .ok (parsed, rest) := by
  cases ht : tokenize source with
  | error e =>
    rw [SourceFile.parse, ht] at h
    cases h
  | ok ts =>
    rw [SourceFile.parse, ht] at h
    simp only [bind, Except.bind] at h
    split at h
    · next parsed rest hf =>
      cases h
      exact ⟨ts, rest, rfl, hf⟩
    · cases h

theorem tokenize_scanned {source : String} {ts : List Token} (h : tokenize source = .ok ts) :
    Scanned ts := by
  obtain ⟨hg, hts⟩ := tokenize_ok h
  exact ⟨.start, _, standBefore_lexemes _, hg, hts⟩

/-- **A file that is parsed has the shape of a file.** -/
theorem parse_fits {source : String} {file : SourceFile}
    (h : SourceFile.parse source = .ok file) : file.Fits Leaf.Parsed := by
  obtain ⟨ts, rest, ht, hf⟩ := parse_eq_ok h
  exact (gives_file admitsText_scanned _ _ _ (tokenize_scanned ht) hf).1

end Understudy.Source

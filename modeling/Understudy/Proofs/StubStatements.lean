import Understudy.Proofs.StatementEnds
import Understudy.Proofs.StubContents

/-!
# The statements of stubs

Everything that a stub declares is one statement: no semicolon stands in it outside its brackets, and
no line ends there behind a token that can end a statement. This is so whatever its names are. Names
that are spelled like keywords can change what is read of a declaration, and even let it go on over
the line end behind it; but then it goes on to the end of a later one.

> **No statement ends within a declaration of a stub** (`Kept.Fits.continues`), so
> **a statement of a stub ends where one of its declarations ends** (`statementEnd_items`).
-/

set_option autoImplicit false

namespace Understudy.Source

open Understudy.Source.Parser

/-! ## Lexemes of a statement -/

/-- Whether a statement that has come to some lexemes outside all brackets goes on behind them. -/
def Continues (ls : List Lexeme) : Prop :=
  ∀ (s : Scanner) (rest : List Token),
    Token.statementEnd 0 (s.tokens ls ++ rest) = Token.statementEnd 0 rest

theorem Kind.innerStep_ofWord (w : String) : (Kind.ofWord w).innerStep 0 = some 0 := by
  rcases Kind.ofWord_mem w with h | h
  · rw [h]
    rfl
  · have hall : ∀ p ∈ Kind.keywords, p.2.innerStep 0 = some 0 := by decide
    exact hall _ h

/-- In brackets a statement goes on whatever stands there. -/
theorem statementEnd_tokens (s : Scanner) {ls : List Lexeme} {d e : Nat}
    (h : depthAfter d ls = some e) (rest : List Token) :
    Token.statementEnd (d + 1) (s.tokens ls ++ rest) = Token.statementEnd (e + 1) rest := by
  -- A statement ends at depth zero only, and here there is one bracket more than the count has.
  fun_induction depthAfter d ls generalizing s with
  | case1 d =>
    cases h
    rfl
  | case2 d kind text ls ho ih =>
    rw [Scanner.tokens_token, List.cons_append,
      Token.statementEnd_cons (innerStep_of_bracketStep (by simp) (bracketStep_opens ho))]
    exact ih _ h
  | case3 kind text ls ho hc => simp at h
  | case4 kind text ls ho hc d ih =>
    rw [Scanner.tokens_token, List.cons_append,
      Token.statementEnd_cons (innerStep_of_bracketStep (by simp) (bracketStep_closes ho hc))]
    exact ih _ h
  | case5 d kind text ls ho hc ih =>
    rw [Scanner.tokens_token, List.cons_append,
      Token.statementEnd_cons (innerStep_of_bracketStep (by simp) (bracketStep_plain ho hc))]
    exact ih _ h
  | case6 d l ls hl ih =>
    rw [Scanner.tokens]
    rcases s.emit_cases hl with he | he
    · rw [he]
      exact ih _ h
    · have hsemi : s.lineEnd.kind.innerStep (d + 1) = some (d + 1) :=
        innerStep_of_bracketStep (by simp) rfl
      rw [he, List.singleton_append, List.cons_append, Token.statementEnd_cons hsemi]
      exact ih _ h

namespace Continues

variable {ls ms : List Lexeme}

theorem nil : Continues [] := fun _ _ => rfl

theorem append (hl : Continues ls) (hm : Continues ms) : Continues (ls ++ ms) := by
  intro s rest
  rw [Scanner.tokens_append, List.append_assoc, hl, hm]

theorem token {kind : Kind} (hk : kind.innerStep 0 = some 0) (text : List Char)
    (h : Continues ls) : Continues (.token kind text :: ls) := by
  intro s rest
  rw [Scanner.tokens_token, List.cons_append, Token.statementEnd_cons hk, h]

theorem word (w : String) (h : Continues ls) : Continues (.ofWord w :: ls) :=
  h.token (Kind.innerStep_ofWord w) _

theorem blank (h : Continues ls) : Continues (.layout [' '] :: ls) := by
  intro s rest
  rw [Scanner.tokens_blank, h]

theorem bracket {op cl : Lexeme} (hb : (op, cl) ∈ brackets) (hl : Balanced ls)
    (hm : Continues ms) : Continues (op :: (ls ++ cl :: ms)) := by
  have hbracket : ∀ {o c : Kind}, o.opens = true → c.opens = false → c.closes = true →
      ∀ t t', Continues (.token o t :: (ls ++ .token c t' :: ms)) := by
    intro o c ho hn hc t t' s rest
    have hopen : o.innerStep 0 = some 1 := by
      refine innerStep_of_bracketStep ?_ (bracketStep_opens ho)
      rintro ⟨rfl, -⟩
      cases ho
    have hclose : c.innerStep 1 = some 0 :=
      innerStep_of_bracketStep (by simp) (bracketStep_closes (by simp [hn]) hc)
    rw [Scanner.tokens_token, List.cons_append, Token.statementEnd_cons hopen,
      Scanner.tokens_append, List.append_assoc, statementEnd_tokens _ hl, Scanner.tokens_token,
      List.cons_append, Token.statementEnd_cons hclose, hm]
  simp only [brackets, List.mem_cons, Prod.mk.injEq, List.not_mem_nil, or_false] at hb
  rcases hb with ⟨rfl, rfl⟩ | ⟨rfl, rfl⟩ | ⟨rfl, rfl⟩ <;> exact hbracket rfl rfl rfl _ _

theorem commas {lss : List (List Lexeme)} (h : ∀ ls ∈ lss, Continues ls) :
    Continues (List.intercalate [.token .comma [','], .layout [' ']] lss) := by
  refine intercalate_induction (fun _ => .nil) h fun ls hm ms hms => ?_
  exact (h ls hm).append (.token rfl _ (.blank hms))

theorem emptyBracket {op cl : Lexeme} (hb : (op, cl) ∈ brackets) (hm : Continues ms) :
    Continues (op :: cl :: ms) :=
  bracket hb balanced_nil hm

end Continues

/-! ## Types -/

/-- What the leaves of a type have to satisfy for its lexemes to stand and to close their
brackets. -/
def Leaf.Closes (l : Leaf) : Prop :=
  l.Lexes ∧ ∀ s, l = .length s → Balanced (lexemes s.toList)

theorem closed_closes : Closed Leaf.Closes Balanced :=
  closed_balanced_of (fun s hs => hs.2 s rfl) (fun h => h.1) fun _ h => h.1

section Types

variable {erased shape : Bool}

/-- The entries of a struct or interface on one line. -/
theorem continues_braces {lss : List (List Lexeme)} (h : ∀ ls ∈ lss, Balanced ls) :
    Continues (.token .lbrace ['{'] :: .layout [' '] ::
      (List.intercalate [.token .semi [';'], .layout [' ']] lss ++
        [.layout [' '], .token .rbrace ['}']])) := by
  have hentries : Balanced (List.intercalate [.token .semi [';'], .layout [' ']] lss) :=
    closed_closes.intercalate (closed_closes.consSign (by decide) closed_closes.blank) h
  have hinner := closed_closes.consBlank (closed_closes.append hentries closed_closes.blank)
  have hpair : (Lexeme.token .lbrace ['{'], Lexeme.token .rbrace ['}']) ∈ brackets := by decide
  have hbraces := Continues.bracket hpair hinner .nil
  rwa [List.cons_append, List.append_assoc, List.singleton_append] at hbraces

theorem continues_commas {op cl : Lexeme} (hb : (op, cl) ∈ brackets) {lss : List (List Lexeme)}
    (h : ∀ ls ∈ lss, Balanced ls) {ms : List Lexeme} (hm : Continues ms) :
    Continues (op :: (List.intercalate [.token .comma [','], .layout [' ']] lss ++ cl :: ms)) :=
  .bracket hb (closed_closes.commas h) hm

theorem IsType.balanced_closes {t : TypeExpr} (h : IsType Leaf.Closes shape t) :
    Balanced (typeLexemes erased t) :=
  h.closed closed_closes

theorem IsParamOf.balanced_closes {t : TypeExpr}
    (h : IsParamOf (IsType Leaf.Closes shape) t) : Balanced (typeLexemes erased t) :=
  closed_closes.param (h.mono fun _ h => h.balanced_closes)

theorem IsParamOf.continues {t : TypeExpr}
    (h : IsParamOf (fun t => Continues (typeLexemes erased t)) t) :
    Continues (typeLexemes erased t) := by
  cases h with
  | type h => exact h
  | variadic h =>
    rw [typeLexemes]
    exact .token rfl _ h

/-- Parameters and results stand in parentheses, unless the only result is a type. -/
theorem continues_signature {s : Signature} (h : IsSignatureOf Leaf.Closes shape (fun t =>
      IsType Leaf.Closes shape t ∧ Continues (typeLexemes erased t)) s) :
    Continues (signatureLexemes erased s) := by
  have hfields : ∀ f ∈ s.fields, Balanced (typeLexemes erased f.type) := fun f hf =>
    ((h.fields f hf).mono fun _ h => h.1).balanced_closes
  have hcontinues := fun f hf => ((h.fields f hf).mono fun _ h => h.2).continues
  obtain ⟨typeParams, params, results⟩ := s
  simp only [Signature.fields, List.mem_append] at hfields hcontinues
  rw [signatureLexemes]
  refine continues_commas (by decide)
    (closed_closes.fields fun f hf => hfields f (Or.inl (Or.inr hf))) ?_
  have hresults := fun f hf => hfields f (Or.inr hf)
  rcases results with _ | _ | ⟨⟨names, type⟩, fields⟩
  · exact .nil
  · rw [resultsLexemes]
    split
    · exact .blank (.emptyBracket (by decide) .nil)
    · exact .nil
  · rw [resultsLexemes]
    split
    · exact .blank (hcontinues (.mk names type) (Or.inr List.mem_cons_self))
    · have hlexemes : ∀ ls ∈ fieldsLexemes erased _, Balanced ls := closed_closes.fields hresults
      rw [Option.getD_some, fieldsLexemes] at hlexemes
      exact .blank (continues_commas (by decide) hlexemes .nil)

/-- **No statement ends within a type.** -/
theorem IsType.continues {t : TypeExpr} (h : IsType Leaf.Closes shape t) :
    Continues (typeLexemes erased t) := by
  -- A semicolon can stand only between the fields or the entries of a type, which are in braces.
  induction h with
  | ident _ =>
    rw [typeLexemes]
    exact .word _ .nil
  | qualified _ _ =>
    rw [typeLexemes]
    exact .word _ (.token rfl _ (.word _ .nil))
  | pointer _ ih =>
    rw [typeLexemes]
    exact .token rfl _ ih
  | slice _ ih =>
    rw [typeLexemes, lengthLexemes]
    exact .bracket (by decide) balanced_nil ih
  | array hl _ ih =>
    rw [typeLexemes, lengthLexemes, typeLexemes]
    exact .bracket (by decide) (hl.2 _ rfl) ih
  | func _ hs =>
    rw [typeLexemes]
    exact .word _ (continues_signature (hs.mono fun _ h => ⟨h.1, h.2⟩))
  | map hk _ _ ih =>
    rw [typeLexemes]
    exact .word _ (.bracket (by decide) hk.balanced_closes ih)
  | @chan dir elem he ih =>
    cases dir with
    | send =>
      rw [typeLexemes]
      exact .word _ (.token rfl _ (.blank ih))
    | recv =>
      rw [typeLexemes]
      exact .token rfl _ (.word _ (.blank ih))
    | both =>
      rw [typeLexemes]
      split
      · exact .word _ (.blank (.bracket (by decide) he.balanced_closes .nil))
      · exact .word _ (.blank ih)
  | @struct fields _ _ hf =>
    have hlexemes : ∀ ls ∈ fieldsLexemes erased fields, Balanced ls :=
      closed_closes.fields fun f hm => (hf f hm).1.balanced_closes
    cases fields with
    | nil =>
      rw [typeLexemes]
      exact .word _ (.emptyBracket (by decide) .nil)
    | cons f fs =>
      rw [typeLexemes]
      exact .word _ (continues_braces hlexemes)
  | @interface elems _ he =>
    cases elems with
    | nil =>
      rw [typeLexemes]
      exact .word _ (.emptyBracket (by decide) .nil)
    | cons e es =>
      rw [typeLexemes, elemsLexemes_eq]
      refine .word _ (continues_braces (List.forall_mem_map.2 fun d hd => ?_))
      exact closed_closes.elem ((he d hd).mono fun _ h => h.1.balanced_closes)
  | generic _ _ _ ha =>
    rw [typeLexemes, typeLexemes]
    exact .word _ (continues_commas (by decide)
      (forall_typesLexemes fun a hm => (ha a hm).1.balanced_closes) .nil)
  | qualifiedGeneric _ _ _ _ ha =>
    rw [typeLexemes, typeLexemes]
    exact .word _ (.token rfl _ (.word _ (continues_commas (by decide)
      (forall_typesLexemes fun a hm => (ha a hm).1.balanced_closes) .nil)))
  | unsupported hu => exact absurd hu.1 id

end Types

/-! ## Parts of declarations -/

theorem balanced_lines {α : Type} {g : α → List Lexeme} {xs : List (List Lexeme × α)}
    (hpad : ∀ x ∈ xs, Balanced x.1) (h : ∀ x ∈ xs, Balanced (g x.2)) :
    Balanced (linesLexemes g xs) := by
  induction xs with
  | nil => exact balanced_nil
  | cons x xs ih =>
    obtain ⟨hp, hpads⟩ := List.forall_mem_cons.1 hpad
    obtain ⟨hx, hrest⟩ := List.forall_mem_cons.1 h
    rw [linesLexemes_cons]
    exact hp.append (hx.append ((ih hpads hrest).layout _))

/-- The entries of a struct or interface on lines of their own. -/
theorem continues_block {α : Type} {keyword : String} {g : α → List Lexeme} {xs : List α}
    (h : ∀ x ∈ xs, Balanced (g x)) : Continues (blockLexemes [] keyword g xs) := by
  have hlines : Balanced (linesLexemes g (xs.map fun x => ([] ++ [.layout ['\t']], x))) :=
    balanced_lines (List.forall_mem_map.2 fun _ _ => balanced_nil.layout _)
      (List.forall_mem_map.2 h)
  have hpair : (Lexeme.token .lbrace ['{'], Lexeme.token .rbrace ['}']) ∈ brackets := by decide
  exact .word _ (.blank (.bracket hpair (hlines.layout ['\n']) .nil))

section Parts

variable {erased shape : Bool}

theorem continues_typeParams {fs : List FieldGroup}
    (h : ∀ f ∈ fs, IsTypeParam Leaf.Closes shape f) : Continues (typeParamsLexemes erased fs) := by
  unfold typeParamsLexemes
  split
  · exact .nil
  · refine continues_commas (by decide) (closed_closes.fields fun f hf => ?_) .nil
    exact closed_closes.constraint ((h f hf).constraint.mono fun _ h => h.balanced_closes)

theorem continues_receiver {receiver : Option (List FieldGroup)}
    (h : ∀ fs ∈ receiver, IsParams Leaf.Closes shape fs) :
    Continues (receiverLexemes erased receiver) := by
  cases receiver with
  | none => exact .nil
  | some fs =>
    refine continues_commas (by decide) (closed_closes.fields fun f hf => ?_) (.blank .nil)
    exact ((h fs rfl).types f hf).balanced_closes

theorem IsType.continues_declared {align : List FieldGroup → List (Nat × FieldGroup)}
    (ha : ∀ fs, (align fs).map Prod.snd = fs) {t : TypeExpr} (h : IsType Leaf.Closes shape t) :
    Continues (declaredLexemes erased align [] t) := by
  obtain ⟨field, fields, rfl⟩ | ⟨elem, elems, rfl⟩ | hl := declared_cases erased align t
  · cases h with
    | struct _ hf =>
      refine continues_block fun x hx => ?_
      have htype : Balanced (typeLexemes erased x.2.type) :=
        (hf _ (mem_of_align ha hx)).balanced_closes
      exact closed_closes.padded _ htype
  · cases h with
    | interface he =>
      exact continues_block fun d hd =>
        closed_closes.elem ((he d hd).mono fun _ h => h.balanced_closes)
  · rw [hl]
    exact h.continues

/-- No line ends behind the sign of a number. -/
theorem continues_literal {ls : List Lexeme} (h : LiteralLexemes ls) : Continues ls := by
  cases h with
  | @basic k text hk =>
    have hall : ∀ k : Kind, k.isLiteral = true → k.innerStep 0 = some 0 := by
      intro k hk
      cases k <;> first | rfl | cases hk
    exact .token (hall k hk) _ .nil
  | @signed k text number gap hk hgap =>
    have hsign : k.innerStep 0 = some 0 ∧ k.endsStatement = false := by
      rcases hk with rfl | rfl <;> exact ⟨rfl, rfl⟩
    intro s rest
    have hline := Scanner.tokens_indent (s := s.step (.token k text)) hsign.2 hgap
      [.token .number number]
    rw [Scanner.tokens_token, List.cons_append, Token.statementEnd_cons hsign.1, hline.1]
    exact Token.statementEnd_cons rfl

theorem continues_valueSpec {names : List String} {type : Option (List Lexeme)}
    (ht : ∀ ls ∈ type, Continues ls) {values : List (List Lexeme)}
    (hv : ∀ ls ∈ values, Continues ls) : Continues (valueSpecLexemes names type values) := by
  have hnames : Continues (namesLexemes names) :=
    .commas (List.forall_mem_map.2 fun n _ => .word n .nil)
  refine hnames.append (.append ?_ ?_)
  · cases type with
    | none => exact .nil
    | some ls => exact .blank (ht ls rfl)
  · split
    · exact .nil
    · exact .blank (.token rfl _ (.blank (.commas hv)))

theorem continues_typeSpec {name : String} {params : List FieldGroup} {isAlias : Bool}
    (hp : ∀ f ∈ params, IsTypeParam Leaf.Closes shape f) {ls : List Lexeme} (hl : Continues ls) :
    Continues (typeSpecLexemes erased name params isAlias ls) := by
  refine .word _ (.append (continues_typeParams hp) (.append ?_ (.blank hl)))
  split
  · exact .blank (.token rfl _ .nil)
  · exact .nil

theorem continues_func {decl : FuncDecl} (hr : ∀ fs ∈ decl.receiver, IsParams Leaf.Closes shape fs)
    (hp : ∀ f ∈ decl.signature.typeParams, IsTypeParam Leaf.Closes shape f)
    (hs : IsSignatureOf Leaf.Closes shape (IsType Leaf.Closes shape)
      (.mk [] decl.signature.params decl.signature.results)) {inner : List Lexeme}
    (hi : Balanced inner) :
    Continues (funcLexemes erased decl.receiver decl.name decl.signature (some inner)) := by
  have hbody : Continues (bodyLexemes (some inner)) := .blank (.bracket (by decide) hi .nil)
  have hsignature : Continues (signatureLexemes erased _) :=
    continues_signature (hs.mono fun _ h => ⟨h, h.continues⟩)
  obtain ⟨receiver, name, ⟨typeParams, params, results⟩, body⟩ := decl
  refine .word _ (.blank (.append (continues_receiver hr) (.word _ (.append
    (continues_typeParams hp) (.append ?_ hbody)))))
  exact hsignature

end Parts

/-- **An import is a statement.** -/
theorem continues_import (i : Import) : Continues (declLexemes "import" (importLexemes i)) := by
  obtain ⟨name, path⟩ := i
  refine .word _ (.blank ?_)
  cases name with
  | none => exact .token rfl _ .nil
  | some name =>
    refine .append ?_ (.token rfl _ .nil)
    by_cases hdot : name = "."
    · rw [Option.map_some, Option.getD_some, importName, if_pos hdot]
      exact .token rfl _ (.blank .nil)
    · rw [Option.map_some, Option.getD_some, importName, if_neg hdot]
      exact .word _ (.blank .nil)

/-! ## Where statements end -/

namespace Scanner

/-- Line ends end a statement, if there is one to end. -/
theorem tokensToEnd_newlines (s : Scanner) (k : Nat) (ms : List Lexeme) :
    ∃ s' : Scanner, s'.pending = false ∧
      s.tokensToEnd (newlines k ++ ms) = s.finish ++ s'.tokensToEnd ms := by
  have hlayout : ∀ l ∈ List.replicate k (Lexeme.layout ['\n']), l.isLayout = true := by
    intro l hl
    rw [List.eq_of_mem_replicate hl]
    rfl
  obtain ⟨hnone, hp⟩ := tokens_indent s.pending_lineEnd hlayout []
  rw [List.append_nil, tokens_nil] at hnone
  refine ⟨_, hp, ?_⟩
  rw [newlines, List.cons_append, tokensToEnd_layout, tokensToEnd_append, hnone, finish]
  cases s.pending <;> rfl

end Scanner

/-- **A statement of a file ends where a declaration ends.** It need not be the next one. -/
theorem statementEnd_items {items : List (List Lexeme × Nat)} (h : ∀ i ∈ items, Continues i.1)
    (s : Scanner) (k : Nat) :
    ∃ (later : List (List Lexeme × Nat)) (s' : Scanner), later <:+ items ∧ s'.pending = false ∧
      (Token.statementEnd 0 (s.tokensToEnd (newlines k ++ itemsLexemes items))).tail =
        s'.tokensToEnd (itemsLexemes later) := by
  induction items generalizing s k with
  | nil =>
    obtain ⟨s', hp, he⟩ := s.tokensToEnd_newlines k (itemsLexemes [])
    have hend : s'.tokensToEnd (itemsLexemes []) = [] := by
      show s'.finish = []
      rw [Scanner.finish, hp]
      rfl
    refine ⟨[], s', List.suffix_refl _, hp, ?_⟩
    rw [he, hend, List.append_nil, Scanner.finish]
    split
    · rw [Token.statementEnd_semi rfl]
      rfl
    · rfl
  | cons item items ih =>
    obtain ⟨ls, m⟩ := item
    obtain ⟨hl, hrest⟩ := List.forall_mem_cons.1 h
    obtain ⟨s', hp, he⟩ := s.tokensToEnd_newlines k (itemsLexemes ((ls, m) :: items))
    rw [he, Scanner.finish]
    split
    · refine ⟨_, s', List.suffix_refl _, hp, ?_⟩
      rw [List.singleton_append, Token.statementEnd_semi rfl]
      rfl
    · -- The line end is none of a statement, so the statement goes on over the next declaration.
      obtain ⟨later, s'', hlater, hp', hend⟩ := ih hrest (s'.after ls) m
      refine ⟨later, s'', hlater.trans (List.suffix_cons _ _), hp', ?_⟩
      rw [List.nil_append, itemsLexemes_cons, Scanner.tokensToEnd_append, hl, hend]

end Understudy.Source

namespace Understudy.Stub

open Source

theorem Kept.Fits.continues_written {erased : Bool} {plain declared : TypeExpr → List Lexeme}
    {inner : List Lexeme} (hplain : ∀ t, IsType Leaf.Closes true t → Continues (plain t))
    (hdeclared : ∀ t, IsType Leaf.Closes true t → Continues (declared t)) (hinner : Balanced inner)
    {k : Kept} (h : k.Fits Leaf.Closes) : Continues (k.written erased plain declared inner) := by
  cases k with
  | value kind name ty init =>
    obtain ⟨-, htype, hv⟩ := h
    refine .word _ (.blank (continues_valueSpec (fun ls hm => ?_) fun ls hm => ?_))
    · obtain ⟨t, ht, rfl⟩ := Option.map_eq_some_iff.1 hm
      exact hplain t (htype t ht)
    · obtain ⟨v, hmem, rfl⟩ := List.mem_map.1 hm
      obtain ⟨hl, hf⟩ := hv v (Option.mem_toList.1 hmem)
      exact continues_literal (hf.lexemes hl).1
  | type spec =>
    refine .word _ (.blank (continues_typeSpec h.params ?_))
    split
    · exact hplain _ h.type
    · exact hdeclared _ h.type
  | func decl => exact continues_func h.1.receiver h.1.typeParams h.1.signature hinner

/-- **No statement ends within a declaration of a stub.** -/
theorem Kept.Fits.continues {k : Kept} (h : k.Fits Leaf.Closes) : Continues k.lexemes :=
  h.continues_written (fun _ ht => ht.continues)
    (fun _ ht => ht.continues_declared Kept.unaligned_snd) Kept.balanced_bodyInner

end Understudy.Stub

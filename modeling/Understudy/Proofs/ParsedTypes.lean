import Understudy.Proofs.Lookahead
import Understudy.Proofs.Parsing
import Understudy.Source.TypeParser

/-!
# What parsing a type guarantees

Every tree that the parser makes stands for a type.

> **A type that is read from tokens has the shape of a type** (`gives_typeAt`).

What its leaves are depends on the tokens: its names are the texts of identifiers. So the lemmas
are about an arbitrary property `P` of token lists that is kept by reading tokens off the front
(`Admits`). A parser *gives*
results with a property if all that it reads has it (`Gives`); there is one lemma for each way to
put parsers together, and then one for each parser.
-/

set_option autoImplicit false

namespace Understudy.Source

open Understudy.Source.Parser

/-! ## Token lists -/

/-- Whether a token is the first lexeme of some text, or ends a statement. -/
def Token.IsLexed (t : Token) : Prop :=
  t.kind = .semi ∨ ∃ c cs rest, next c cs = (.token t.kind t.text.toList, rest)

/-- What the leaves of every type satisfy that is read from tokens. -/
def Leaf.Parsed : Leaf → Prop
  | .name s | .qualifier s => isWord s = true
  | .unsupported s => s ≠ opaqueType
  | _ => True

/-- A property of token lists that is left to every tail, where all tokens are lexed and the text of
an identifier can be a leaf. -/
structure Admits (ok : Leaf → Prop) (P : List Token → Prop) : Prop where
  tail : ∀ {t : Token} {ts : List Token}, P (t :: ts) → P ts
  lexed : ∀ {t : Token} {ts : List Token}, P (t :: ts) → t.IsLexed
  name : ∀ {t : Token} {ts : List Token}, P (t :: ts) → t.kind = .ident →
    ok (.name t.text) ∧ ok (.qualifier t.text)
  length : ∀ s, ok (.length s)
  arity : ∀ n, ok (.arity n)
  unsupported : ∀ s, s ≠ opaqueType → ok (.unsupported s)

theorem Token.IsLexed.word {t : Token} (h : t.IsLexed) (hk : t.kind = .ident) :
    isWord t.text = true := by
  rcases h with hs | ⟨c, cs, rest, hn⟩
  · rw [hk] at hs
    cases hs
  · rw [hk] at hn
    simpa using next_ident hn

/-- Whether all that a parser reads from tokens with `P` satisfies `Q`, and the tokens that it
leaves have `P` again. -/
def Gives {α : Type} (P : List Token → Prop) (p : Parser α) (Q : α → Prop) : Prop :=
  ∀ (ts : List Token) (a : α) (rest : List Token), P ts → p ts = .ok (a, rest) → Q a ∧ P rest

section Combinators

variable {α β : Type} {P : List Token → Prop} {Q R : α → Prop} {S : β → Prop} {p : Parser α}

theorem gives_pure {a : α} (h : Q a) : Gives P (pure a) Q := by
  intro ts b rest hP he
  cases he
  exact ⟨h, hP⟩

theorem gives_fail (message : String) : Gives P (fail message : Parser α) Q := by
  intro ts a rest _ he
  cases he

theorem gives_exhaust : Gives P (exhaust : Parser α) Q := by
  intro ts a rest _ he
  cases he

theorem Gives.mono (h : Gives P p Q) (hq : ∀ a, Q a → R a) : Gives P p R := by
  intro ts a rest hP he
  exact (h _ _ _ hP he).imp_left (hq a)

theorem Gives.bind {f : α → Parser β} (hp : Gives P p Q) (hf : ∀ a, Q a → Gives P (f a) S) :
    Gives P (p >>= f) S := by
  intro ts b rest hP he
  obtain ⟨a, mid, hr, he⟩ := bind_eq_ok he
  obtain ⟨hQ, hmid⟩ := hp _ _ _ hP hr
  exact hf a hQ _ _ _ hmid he

theorem Gives.map {f : α → β} (hp : Gives P p Q) (hf : ∀ a, Q a → S (f a)) :
    Gives P (f <$> p) S := by
  intro ts b rest hP he
  rw [map_apply] at he
  cases hr : p ts with
  | error fault => simp [hr] at he
  | ok r =>
    obtain ⟨a, mid⟩ := r
    obtain ⟨hQ, hmid⟩ := hp _ _ _ hP hr
    simp only [hr, Except.ok.injEq, Prod.mk.injEq] at he
    obtain ⟨rfl, rfl⟩ := he
    exact ⟨hf a hQ, hmid⟩

theorem gives_ite {c : Prop} [Decidable c] {p q : Parser α} (hp : c → Gives P p Q)
    (hq : ¬ c → Gives P q Q) : Gives P (if c then p else q) Q := by
  split
  · next h => exact hp h
  · next h => exact hq h

/-- One of two parsers, and then what goes on with either result. -/
theorem gives_branch {c : Prop} [Decidable c] {p q : Parser α} {f : α → Parser β}
    (hp : c → Gives P p Q) (hq : ¬ c → Gives P q Q) (hf : ∀ a, Q a → Gives P (f a) S) :
    Gives P (if c then p >>= f else q >>= f) S :=
  gives_ite (fun h => (hp h).bind hf) fun h => (hq h).bind hf

theorem gives_remaining : Gives P remaining P := by
  intro ts a rest hP he
  cases he
  exact ⟨hP, hP⟩

theorem gives_continueAt {rest : List Token} (h : P rest) :
    Gives P (continueAt rest) fun _ => True := by
  intro ts a rest' _ he
  cases he
  exact ⟨trivial, h⟩

theorem gives_peek : Gives P peek fun _ => True := by
  intro ts a rest hP he
  cases he
  exact ⟨trivial, hP⟩

theorem gives_isAt (kind : Kind) : Gives P (isAt kind) fun _ => True := by
  intro ts a rest hP he
  cases he
  exact ⟨trivial, hP⟩

end Combinators

section Tokens

variable {ok : Leaf → Prop} {P : List Token → Prop} (hP : Admits ok P)
include hP

theorem gives_advance : Gives P advance fun _ => True := by
  intro ts a rest h he
  cases he
  cases ts with
  | nil => exact ⟨trivial, h⟩
  | cons t ts => exact ⟨trivial, hP.tail h⟩

theorem gives_eat (kind : Kind) : Gives P (eat kind) fun _ => True := by
  intro ts a rest h he
  cases ts with
  | nil =>
    cases he
    exact ⟨trivial, h⟩
  | cons t ts =>
    rw [eat] at he
    split at he <;> cases he
    · exact ⟨trivial, hP.tail h⟩
    · exact ⟨trivial, h⟩

theorem gives_expect (kind : Kind) (what : String) :
    Gives P (expect kind what) fun t => t.kind = kind ∧
      (kind = .ident → ok (.name t.text) ∧ ok (.qualifier t.text)) := by
  intro ts a rest h he
  cases ts with
  | nil => cases he
  | cons t ts =>
    rw [expect] at he
    split at he
    · next hk =>
      cases he
      have hk := eq_of_beq hk
      exact ⟨⟨hk, fun hi => hP.name h (hk.trans hi)⟩, hP.tail h⟩
    · cases he

theorem gives_ident : Gives P ident fun s => ok (.name s) ∧ ok (.qualifier s) :=
  (gives_expect hP .ident "identifier").bind fun _ ht => gives_pure (ht.2 rfl)

theorem gives_name : Gives P ident fun s => ok (.name s) :=
  (gives_ident hP).mono fun _ => And.left

theorem Admits.suffix {ts us : List Token} (hs : us <:+ ts) (h : P ts) : P us := by
  obtain ⟨run, rfl⟩ := hs
  induction run with
  | nil => exact h
  | cons t run ih => exact ih (hP.tail h)

/-! ## Lists -/

variable {α : Type} {item : Parser α} {Q : α → Prop} (hi : Gives P item Q)
include hi

theorem gives_separatedTail (sep : Kind) (n : Nat) :
    Gives P (separatedTail sep item n) fun xs => ∀ x ∈ xs, Q x := by
  induction n with
  | zero => exact gives_exhaust
  | succ n ih =>
    rw [separatedTail]
    refine (gives_eat hP sep).bind fun b _ => gives_ite (fun _ => ?_) fun _ => ?_
    · refine hi.bind fun x hx => ih.bind fun xs hxs => gives_pure ?_
      exact List.forall_mem_cons.2 ⟨hx, hxs⟩
    · exact gives_pure (by simp)

theorem gives_separated (sep : Kind) :
    Gives P (separated sep item) fun xs => xs ≠ [] ∧ ∀ x ∈ xs, Q x := by
  refine hi.bind fun x hx => gives_remaining.bind fun ts _ => ?_
  refine (gives_separatedTail hP hi sep _).bind fun xs hxs => gives_pure ?_
  exact ⟨by simp, List.forall_mem_cons.2 ⟨hx, hxs⟩⟩

theorem gives_commaListLoop (close : Kind) (what : String) (n : Nat) :
    Gives P (commaListLoop close what item n) fun xs => ∀ x ∈ xs, Q x := by
  induction n with
  | zero => exact gives_exhaust
  | succ n ih =>
    rw [commaListLoop]
    refine (gives_eat hP close).bind fun b _ => gives_ite (fun _ => gives_pure (by simp)) fun _ => ?_
    refine hi.bind fun x hx => (gives_isAt close).bind fun c _ => ?_
    have hrest : Gives P (do return x :: (← commaListLoop close what item n))
        fun xs => ∀ x ∈ xs, Q x :=
      ih.bind fun xs hxs => gives_pure (List.forall_mem_cons.2 ⟨hx, hxs⟩)
    exact gives_ite (fun _ => hrest) fun _ => (gives_expect hP .comma what).bind fun _ _ => hrest

theorem gives_commaList (close : Kind) (what : String) :
    Gives P (commaList close what item) fun xs => ∀ x ∈ xs, Q x :=
  gives_remaining.bind fun _ _ => gives_commaListLoop hP hi close what _

theorem gives_semicolonListLoop (close : Kind) (what : String) (n : Nat) :
    Gives P (semicolonListLoop close what item n) fun xs => ∀ x ∈ xs, Q x := by
  induction n with
  | zero => exact gives_exhaust
  | succ n ih =>
    rw [semicolonListLoop]
    refine (gives_eat hP close).bind fun b _ => gives_ite (fun _ => gives_pure (by simp)) fun _ => ?_
    refine (gives_eat hP .semi).bind fun c _ => gives_ite (fun _ => ih) fun _ => ?_
    refine hi.bind fun x hx => (gives_isAt close).bind fun d _ => ?_
    have hrest : Gives P (do return x :: (← semicolonListLoop close what item n))
        fun xs => ∀ x ∈ xs, Q x :=
      ih.bind fun xs hxs => gives_pure (List.forall_mem_cons.2 ⟨hx, hxs⟩)
    exact gives_ite (fun _ => hrest) fun _ => (gives_expect hP .semi what).bind fun _ _ => hrest

theorem gives_semicolonList (close : Kind) (what : String) :
    Gives P (semicolonList close what item) fun xs => ∀ x ∈ xs, Q x :=
  gives_remaining.bind fun _ _ => gives_semicolonListLoop hP hi close what _

end Tokens

/-! ## Runs of tokens -/

theorem splitClose?_eq {d : Nat} {ts run rest : List Token} {close : Token}
    (h : Token.splitClose? d ts = some (run, close, rest)) : ts = run ++ close :: rest := by
  fun_induction Token.splitClose? d ts generalizing run with
  | case1 => cases h
  | case2 d t ts _ ih | case4 t ts _ _ d ih | case5 d t ts _ _ ih =>
    obtain ⟨⟨run', rest'⟩, hr, he⟩ := Option.map_eq_some_iff.1 h
    cases he
    rw [ih hr, List.cons_append]
  | case3 t ts _ _ =>
    cases h
    rfl

theorem splitBalanced_append (delimiters : List Kind) (d : Nat) (ts : List Token) :
    (Token.splitBalanced delimiters d ts).1 ++ (Token.splitBalanced delimiters d ts).2 = ts := by
  fun_induction Token.splitBalanced delimiters d ts <;> simp_all

/-- A type of no known form is a run of tokens. -/
theorem unsupportedType_eq_ok {ts rest : List Token} {a : TypeExpr}
    (h : unsupportedType ts = .ok (a, rest)) :
    ∃ run, run ≠ [] ∧ Token.splitBalanced [.comma, .semi, .pipe] 0 ts = (run, rest) ∧
      a = .unsupported (Token.spell run) := by
  rw [unsupportedType, bind_apply, remaining_apply] at h
  dsimp only at h
  generalize Token.splitBalanced [.comma, .semi, .pipe] 0 ts = r at h ⊢
  obtain ⟨run, behind⟩ := r
  cases run with
  | nil => cases h
  | cons t run =>
    cases h
    exact ⟨_, List.cons_ne_nil t run, rfl, rfl⟩

/-- A run outside brackets begins with none of the delimiters. -/
theorem splitBalanced_first {delimiters : List Kind} {t : Token} {ts run rest : List Token}
    (h : Token.splitBalanced delimiters 0 (t :: ts) = (run, rest)) (hne : run ≠ [])
    (ho : ∀ k ∈ delimiters, k.opens = false) : t.kind ∉ delimiters := by
  intro hm
  rw [Token.splitBalanced, if_neg (by simp [ho _ hm])] at h
  split at h
  · exact hne (Prod.mk.inj h).1.symm
  · rw [if_pos (by simpa using hm)] at h
    exact hne (Prod.mk.inj h).1.symm

section Types

variable {ok : Leaf → Prop} {P : List Token → Prop} (hP : Admits ok P)
include hP

theorem gives_idents : Gives P idents fun names => names ≠ [] ∧ ∀ n ∈ names, ok (.name n) :=
  gives_separated hP (gives_name hP) .comma

/-- What is read as a type that begins with neither a star nor an arrow. -/
def IsUnsigned (ok : Leaf → Prop) (t : TypeExpr) : Prop :=
  IsType ok true t ∧ t.isSigned = false

/-! ## Parameters -/

omit hP

/-- What is read as an entry of a parameter list. -/
def IsEntry (ok : Leaf → Prop) (entry : ParamEntry) : Prop :=
  (∀ n ∈ entry.1, ok (.name n)) ∧ IsParamOf (IsType ok true) entry.2

theorem groupNamed_parsed {pending : List String} (hp : ∀ n ∈ pending, ok (.name n))
    {entries : List ParamEntry} (he : ∀ e ∈ entries, IsEntry ok e) {fs : List FieldGroup}
    (h : groupNamed pending entries = some fs) :
    (∀ f ∈ fs, f.names ≠ []) ∧ NamesOk ok fs ∧
      ∀ f ∈ fs, IsParamOf (IsType ok true) f.type := by
  -- An entry with a type gives it to the names that wait; one without it is a name that waits.
  fun_induction groupNamed pending entries generalizing fs with
  | case1 => cases h; simp [NamesOk]
  | case2 => cases h
  | case3 pending name type entries ih =>
    obtain ⟨gs, hg, rfl⟩ := Option.map_eq_some_iff.1 h
    obtain ⟨hentry, he⟩ := List.forall_mem_cons.1 he
    obtain ⟨hne, hn, ht⟩ := ih (by simp) he hg
    refine ⟨List.forall_mem_cons.2 ⟨by simp, hne⟩, List.forall_mem_cons.2 ⟨?_, hn⟩,
      List.forall_mem_cons.2 ⟨hentry.2, ht⟩⟩
    intro n hm
    rcases List.mem_append.1 hm with hm | hm
    · exact hp n hm
    · rw [List.mem_singleton.1 hm]
      exact hentry.1 name rfl
  | case4 pending name entries ih =>
    obtain ⟨hentry, he⟩ := List.forall_mem_cons.1 he
    refine ih (fun n hm => ?_) he h
    rcases List.mem_append.1 hm with hm | hm
    · exact hp n hm
    · rw [List.mem_singleton.1 hm]
      cases hentry.2 with
      | type hname =>
        cases hname with
        | ident hname => exact hname
  | case5 => cases h

theorem groupParams_parsed {entries : List ParamEntry} (he : ∀ e ∈ entries, IsEntry ok e)
    {fs : List FieldGroup} (h : groupParams entries = some fs) :
    Uniform fs ∧ NamesOk ok fs ∧
      ∀ f ∈ fs, IsParamOf (IsType ok true) f.type := by
  rw [groupParams] at h
  split at h
  · cases h
    refine ⟨Or.inl ?_, ?_, ?_⟩ <;> intro f hf <;> obtain ⟨e, hm, rfl⟩ := List.mem_map.1 hf
    · rfl
    · exact fun n hn => absurd hn List.not_mem_nil
    · exact (he e hm).2
  · obtain ⟨hne, hn, ht⟩ := groupNamed_parsed (by simp) he h
    exact ⟨Or.inr hne, hn, ht⟩

/-- The parameters and results of a signature without type parameters. -/
theorem isSignatureOf_parsed {ps : List FieldGroup} (hp : IsParams ok true ps)
    {rs : Option (List FieldGroup)} (hr : ∀ fs ∈ rs, IsParams ok true fs) :
    IsSignatureOf ok true (IsType ok true) (.mk [] ps rs) := by
  cases rs with
  | none => exact .plain hp.uniform hp.names hp.types
  | some fs =>
    obtain ⟨hu, hn, ht⟩ := hr fs rfl
    exact .results hp.uniform hp.names hp.types hu hn ht (Or.inl rfl)

section Parts

variable {type : Parser TypeExpr} (ht : Gives P type (IsType ok true))
include hP ht

theorem gives_paramEntry : Gives P (paramEntry type) (IsEntry ok) := by
  have hname : Gives P (some <$> ident) fun name => ∀ n ∈ name, ok (.name n) :=
    (gives_name hP).map fun s hs n hn => by
      cases hn
      exact hs
  refine gives_remaining.bind fun ts _ => gives_branch (fun _ => hname)
    (fun _ => gives_pure (by simp)) fun name hn => ?_
  refine (gives_eat hP .ellipsis).bind fun b _ => gives_ite (fun _ => ?_) fun _ => ?_
  · exact ht.bind fun t h => gives_pure ⟨hn, .variadic h⟩
  · exact ht.bind fun t h => gives_pure ⟨hn, .type h⟩

theorem gives_params : Gives P (params type) (IsParams ok true) := by
  refine (gives_expect hP .lparen "'('").bind fun _ _ => ?_
  refine (gives_commaList hP (gives_paramEntry hP ht) .rparen "',' or ')'").bind fun es he => ?_
  split
  · next fs h =>
    obtain ⟨hu, hn, ht⟩ := groupParams_parsed he h
    exact gives_pure ⟨hu, hn, ht⟩
  · exact gives_fail _

theorem gives_results : Gives P (results type) fun rs =>
    ∀ fs ∈ rs, IsParams ok true fs := by
  refine gives_peek.bind fun kind _ => ?_
  split
  · refine (gives_params hP ht).bind fun fs h => gives_pure ?_
    intro gs hg
    cases hg
    exact h
  · refine gives_ite (fun _ => ?_) fun _ => gives_pure (by simp)
    refine ht.bind fun t h => gives_pure ?_
    intro gs hg
    cases hg
    exact ⟨Or.inl (List.forall_mem_singleton.2 rfl),
      List.forall_mem_singleton.2 fun n hn => absurd hn List.not_mem_nil,
      List.forall_mem_singleton.2 (.type h)⟩
  · exact gives_pure (by simp)

theorem gives_signature : Gives P (signature type)
    (IsSignatureOf ok true (IsType ok true)) :=
  (gives_params hP ht).bind fun _ hp => (gives_results hP ht).bind fun _ hr =>
    gives_pure (isSignatureOf_parsed hp hr)

/-! ## Constraints -/

theorem gives_typeTerm : Gives P (typeTerm type) (IsTermOf (IsType ok true)) := by
  refine (gives_eat hP .tilde).bind fun b _ => gives_ite (fun _ => ?_) fun _ => ?_
  · exact ht.bind fun t h => gives_pure (.tilde h)
  · exact ht.mono fun t h => .type h

theorem gives_typeElem :
    Gives P (typeElem type) (IsConstraintOf (IsType ok true)) := by
  refine (gives_separated hP (gives_typeTerm hP ht) .pipe).bind fun terms h => ?_
  obtain ⟨hne, h⟩ := h
  split
  · exact gives_pure (.term (h _ (by simp)))
  · next hone =>
    refine gives_pure (.union ?_ h)
    match terms with
    | [] => exact absurd rfl hne
    | [term] => exact absurd rfl (hone term)
    | _ :: _ :: _ => simp

theorem gives_typeParamsLoop (n : Nat) {pending : List String} (hn : ∀ m ∈ pending, ok (.name m)) :
    Gives P (typeParamsLoop type n pending)
      fun fs => ∀ f ∈ fs, IsTypeParam ok true f := by
  induction n generalizing pending with
  | zero => exact gives_exhaust
  | succ n ih =>
    rw [typeParamsLoop]
    refine (gives_eat hP .rbrack).bind fun b _ => gives_ite (fun _ => ?_) fun _ => ?_
    · exact gives_ite (fun _ => gives_pure (by simp)) fun _ => gives_fail _
    · refine (gives_name hP).bind fun name hname => ?_
      have hnames : ∀ m ∈ pending ++ [name], ok (.name m) :=
        List.forall_mem_append.2 ⟨hn, List.forall_mem_singleton.2 hname⟩
      refine (gives_eat hP .comma).bind fun c _ => gives_ite (fun _ => ih hnames) fun _ => ?_
      refine (gives_typeElem hP ht).bind fun t h => (gives_isAt .rbrack).bind fun d _ => ?_
      have hrest : Gives P (do return .mk (pending ++ [name]) t :: (← typeParamsLoop type n []))
          fun fs => ∀ f ∈ fs, IsTypeParam ok true f := by
        refine (ih (by simp)).bind fun fs hfs => gives_pure ?_
        exact List.forall_mem_cons.2 ⟨⟨by simp, hnames, h⟩, hfs⟩
      exact gives_ite (fun _ => hrest) fun _ => (gives_expect hP _ _).bind fun _ _ => hrest

theorem gives_typeParams : Gives P (typeParams type)
    fun fs => ∀ f ∈ fs, IsTypeParam ok true f :=
  (gives_expect hP .lbrack "'['").bind fun _ _ => gives_remaining.bind fun _ _ =>
    gives_typeParamsLoop hP ht _ (by simp)

/-! ## Structs and interfaces -/

theorem gives_structField : Gives P (structField type)
    fun f => (∀ n ∈ f.names, ok (.name n)) ∧ IsType ok true f.type := by
  refine gives_remaining.bind fun ts _ => gives_branch
    (fun _ => (gives_idents hP).mono fun names h => h.2) (fun _ => gives_pure (by simp))
    fun names hn => ?_
  refine ht.bind fun t h => gives_peek.bind fun kind _ => ?_
  split
  · exact (gives_advance hP).bind fun _ _ => gives_pure ⟨hn, h⟩
  · exact (gives_advance hP).bind fun _ _ => gives_pure ⟨hn, h⟩
  · exact gives_pure ⟨hn, h⟩

theorem gives_structType : Gives P (structType type) (IsUnsigned ok) := by
  refine (gives_expect hP _ _).bind fun _ _ => (gives_expect hP _ _).bind fun _ _ => ?_
  refine (gives_semicolonList hP (gives_structField hP ht) _ _).bind fun fs h => gives_pure ?_
  exact ⟨.struct (fun f hf => (h f hf).1) fun f hf => (h f hf).2, rfl⟩

theorem gives_interfaceElem : Gives P (interfaceElem type)
    (IsElemOf ok true (IsType ok true)) := by
  refine gives_remaining.bind fun ts _ => gives_ite (fun _ => ?_) fun _ => ?_
  · refine (gives_name hP).bind fun name hn => (gives_signature hP ht).bind fun s hs => ?_
    exact gives_pure (.method hn hs)
  · exact (gives_typeElem hP ht).bind fun t h => gives_pure (.embedded h)

theorem gives_interfaceType : Gives P (interfaceType type) (IsUnsigned ok) := by
  refine (gives_expect hP _ _).bind fun _ _ => (gives_expect hP _ _).bind fun _ _ => ?_
  refine (gives_semicolonList hP (gives_interfaceElem hP ht) _ _).bind fun es h => ?_
  exact gives_pure ⟨.interface h, rfl⟩

/-! ## Types -/

theorem gives_typeName : Gives P (typeName type) (IsUnsigned ok) := by
  -- The base of an instance, with what it takes to be one.
  have hbase : ∀ first, ok (.qualifier first) → Gives P (TypeExpr.qualified first <$> ident)
      fun base => IsUnsigned ok base ∧ ∀ args, (∀ a ∈ args, IsType ok true a) →
        IsType ok true (.instantiated base args) := by
    intro first hf
    refine (gives_name hP).map fun name hn => ⟨⟨.qualified hf hn, rfl⟩, fun args ha => ?_⟩
    exact .qualifiedGeneric hf hn (hP.arity _) ha
  refine (gives_ident hP).bind fun first hf => (gives_eat hP .dot).bind fun b _ => ?_
  refine gives_branch (fun _ => hbase first hf.2)
    (fun _ => gives_pure ⟨⟨.ident hf.1, rfl⟩, fun args ha => .generic hf.1 (hP.arity _) ha⟩)
    fun base h => ?_
  refine (gives_eat hP .lbrack).bind fun c _ => gives_ite (fun _ => ?_) fun _ => gives_pure h.1
  exact (gives_commaList hP ht _ _).bind fun args ha => gives_pure ⟨h.2 args ha, rfl⟩

end Parts

/-- A word at the front of the text of the empty interface is the keyword, or a name. -/
theorem ofWord_opaque {w : List Char} (hp : w <+: opaqueType.toList)
    (hw : isWord (String.ofList w) = true) :
    Kind.ofWord (String.ofList w) ∈ [Kind.ident, .kwInterface] := by
  have hall : ∀ n ∈ List.range 12, isWord (String.ofList (opaqueType.toList.take n)) = true →
      Kind.ofWord (String.ofList (opaqueType.toList.take n)) ∈ [Kind.ident, .kwInterface] := by
    decide +kernel
  have hlen : w.length ≤ 11 := hp.length_le
  rw [List.prefix_iff_eq_take.1 hp] at hw ⊢
  exact hall _ (List.mem_range.2 (by omega)) hw

/-- A run of tokens reads like the empty interface only if it begins with its keyword, or with a
name. -/
theorem spell_ne_opaqueType {t : Token} (hl : t.IsLexed)
    (hk : t.kind ∉ [Kind.semi, .ident, .kwInterface]) (ts : List Token) :
    Token.spell (t :: ts) ≠ opaqueType := by
  intro he
  simp only [List.mem_cons, List.not_mem_nil, or_false, not_or] at hk
  obtain ⟨hsemi, hident, hinterface⟩ := hk
  obtain ⟨c, cs, rest, hn⟩ := hl.resolve_left hsemi
  have hp : t.text.toList <+: opaqueType.toList := by
    rw [← he, Token.spell, String.toList_append]
    exact List.prefix_append _ _
  have happend := next_append c cs
  have hne := next_text_ne_nil c cs
  rw [hn] at happend hne
  obtain ⟨d, u, ht⟩ := List.exists_cons_of_ne_nil hne
  rw [Lexeme.text_token] at ht happend
  rw [ht] at happend hp
  obtain rfl : d = c := (List.cons.inj happend).1
  have hi : d = 'i' := (List.cons_prefix_cons.1 hp).1
  have hstart : startsWord d = true := by
    rw [hi]
    decide +kernel
  rw [next_word _ hstart] at hn
  have hw := word_text hstart hn
  rw [ht] at hw
  have hmem := ofWord_opaque hp hw
  -- The kind of a word is that of its text, but before a byte order mark it is a name.
  obtain ⟨hkind, htext⟩ := Lexeme.token.inj (Prod.mk.inj hn).1
  rw [htext, ht] at hkind
  split at hkind
  · exact hident hkind.symm
  · rw [hkind] at hmem
    simp [hident, hinterface] at hmem

section TypeAt

include hP

theorem unsupportedType_parsed {t : Token} {ts rest : List Token} {a : TypeExpr}
    (h : P (t :: ts)) (hk : t.kind ∉ [Kind.ident, .kwInterface])
    (he : unsupportedType (t :: ts) = .ok (a, rest)) : IsUnsigned ok a ∧ P rest := by
  obtain ⟨run, hne, hs, rfl⟩ := unsupportedType_eq_ok he
  have happend := splitBalanced_append [.comma, .semi, .pipe] 0 (t :: ts)
  rw [hs] at happend
  obtain ⟨u, run, rfl⟩ := List.exists_cons_of_ne_nil hne
  obtain ⟨rfl, hts⟩ := List.cons.inj happend
  have hsemi := splitBalanced_first hs (by simp) (by decide)
  refine ⟨⟨.unsupported (hP.unsupported _ (spell_ne_opaqueType (hP.lexed h) ?_ run)), rfl⟩, ?_⟩
  · simp only [List.mem_cons, List.not_mem_nil, or_false, not_or] at hk hsemi ⊢
    exact ⟨hsemi.2.1, hk⟩
  · exact hP.suffix ⟨u :: run, happend⟩ h

theorem gives_arrayType {type : Parser TypeExpr}
    (ht : Gives P type (IsType ok true)) :
    Gives P (arrayType type) (IsUnsigned ok) := by
  refine (gives_expect hP _ _).bind fun _ _ => (gives_eat hP .rbrack).bind fun b _ => ?_
  refine gives_ite (fun _ => ht.bind fun t h => gives_pure ⟨.slice h, rfl⟩) fun _ => ?_
  refine gives_remaining.bind fun ts hts => ?_
  split
  · exact gives_fail _
  · next run close rest hs =>
    have hrest : P rest := by
      refine hP.suffix ⟨run ++ [close], ?_⟩ hts
      rw [splitClose?_eq hs, List.append_assoc, List.singleton_append]
    refine (gives_continueAt hrest).bind fun _ _ => ht.bind fun t h => ?_
    exact gives_pure ⟨.array (hP.length _) h, rfl⟩

/-- The kinds of token behind which a type may begin with a star or an arrow. -/
def signedKinds : List Kind := [.star, .arrow, .lparen]

/-- One level of a type. -/
theorem typeAt_step {n : Nat} (ih : Gives P (typeAt n) (IsType ok true))
    {t : Token} {ts rest : List Token} {a : TypeExpr} (h : P (t :: ts))
    (he : typeAt (n + 1) (t :: ts) = .ok (a, rest)) :
    (IsType ok true a ∧ (t.kind ∉ signedKinds → a.isSigned = false)) ∧ P rest := by
  have hunsigned : IsUnsigned ok a ∧ P rest →
      (IsType ok true a ∧ (t.kind ∉ signedKinds → a.isSigned = false)) ∧ P rest :=
    fun h => ⟨⟨h.1.1, fun _ => h.1.2⟩, h.2⟩
  have hsigned : t.kind ∈ signedKinds → IsType ok true a ∧ P rest →
      (IsType ok true a ∧ (t.kind ∉ signedKinds → a.isSigned = false)) ∧ P rest :=
    fun hk h => ⟨⟨h.1, fun hn => absurd hk hn⟩, h.2⟩
  -- The branches of the parser in their order; three of them begin with a token of a signed type.
  rw [typeAt, bind_apply, peek_cons] at he
  generalize hkind : some t.kind = kind at he
  dsimp only at he
  split at he
  · cases hkind
  · exact hunsigned (gives_typeName hP ih _ _ _ h he)
  · refine hsigned (by simp [Option.some.inj hkind, signedKinds]) ?_
    refine Gives.bind (gives_advance hP) (fun _ _ => ?_) _ _ _ h he
    exact ih.bind fun _ ht => gives_pure (.pointer ht)
  · exact hunsigned (gives_arrayType hP ih _ _ _ h he)
  · refine hsigned (by simp [Option.some.inj hkind, signedKinds]) ?_
    refine Gives.bind (gives_advance hP) (fun _ _ => ih.bind fun _ ht => ?_) _ _ _ h he
    exact (gives_expect hP _ _).bind fun _ _ => gives_pure ht
  · refine hunsigned (Gives.bind (gives_advance hP) (fun _ _ => ?_) _ _ _ h he)
    exact (gives_signature hP ih).bind fun _ hs => gives_pure ⟨.func hs, rfl⟩
  · refine hunsigned (Gives.bind (gives_advance hP) (fun _ _ => ?_) _ _ _ h he)
    refine (gives_expect hP _ _).bind fun _ _ => ih.bind fun _ hk => ?_
    refine (gives_expect hP _ _).bind fun _ _ => ih.bind fun _ hv => ?_
    exact gives_pure ⟨.map hk hv, rfl⟩
  · refine hunsigned (Gives.bind (gives_advance hP) (fun _ _ => ?_) _ _ _ h he)
    refine (gives_eat hP _).bind fun b _ => ih.bind fun _ ht => gives_pure ⟨.chan ht, ?_⟩
    cases b <;> rfl
  · refine hsigned (by simp [Option.some.inj hkind, signedKinds]) ?_
    refine Gives.bind (gives_advance hP) (fun _ _ => ?_) _ _ _ h he
    refine (gives_expect hP _ _).bind fun _ _ => ih.bind fun _ ht => ?_
    exact gives_pure (.chan ht)
  · exact hunsigned (gives_structType hP ih _ _ _ h he)
  · exact hunsigned (gives_interfaceType hP ih _ _ _ h he)
  · next kind hident _ _ _ _ _ _ _ _ hinterface =>
    refine hunsigned (unsupportedType_parsed hP h ?_ he)
    cases hkind
    simp only [List.mem_cons, List.not_mem_nil, or_false, not_or]
    exact ⟨hident, hinterface⟩

/-- **A type that is read from tokens has the shape of a type.** -/
theorem gives_typeAt (n : Nat) : Gives P (typeAt n) (IsType ok true) := by
  induction n with
  | zero => exact gives_exhaust
  | succ n ih =>
    intro ts a rest h he
    cases ts with
    | nil => cases he
    | cons t ts => exact (typeAt_step hP ih h he).imp_left And.left

theorem typeAt_unsigned {n : Nat} {t : Token} {ts rest : List Token} {a : TypeExpr}
    (h : P (t :: ts)) (hk : t.kind ∉ signedKinds) (he : typeAt n (t :: ts) = .ok (a, rest)) :
    a.isSigned = false := by
  cases n with
  | zero => cases he
  | succ n => exact (typeAt_step hP (gives_typeAt hP n) h he).1.2 hk

theorem gives_typeExpr : Gives P typeExpr (IsType ok true) :=
  gives_remaining.bind fun _ _ => gives_typeAt hP _

end TypeAt

end Types

end Understudy.Source

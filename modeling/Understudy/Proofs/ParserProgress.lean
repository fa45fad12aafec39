import Understudy.Proofs.FileSegments
import Understudy.Proofs.ParsedFiles
import Understudy.Proofs.ParserTurns
import Understudy.Proofs.SourceSlices

/-!
# Progress of the parser

Where a parser stands in the tokens of a text is said by the tokens that are left. There is one lemma
for each parser, in the order of the parsers, and what they come to is put together for the loops
(`IsLoop`), for the functions of the parser (`IsPart`) and for the texts that it takes of the source
(`Takes`):

> **the parser always makes progress** (`parser_goesOn`),

whatever it reads: no function goes back, no loop goes on without a token read, and no counter runs
out.

The counter of `typeAt` is for the depth of a type. Most readers of parts of a type are as deep as the
reader of a nested type that they are given; a name, an array, a struct and an interface have a token
of their own in front, and the counter may be one higher for them.
-/

set_option autoImplicit false

namespace Understudy.Source

open Understudy.Source.Parser

/-! ## Types -/

section Parts

variable {n : Nat} {type : Parser TypeExpr} (ht : Goes n (fun _ => 1) type)
include ht

theorem goes_paramEntry : Goes n (fun _ => 1) (paramEntry type) := by
  have hentry : ∀ name : Option String, Goes n (fun _ => 1) (do
      if ← eat .ellipsis then return (name, .ellipsis (← type))
      else return (name, ← type)) :=
    fun name => .eat (ht.bind fun _ => goes_pure rfl) (ht.bind fun _ => goes_pure rfl)
  refine .remaining fun ts => goes_ite ?_ ?_ ts
  · exact (goes_ident.map some).bind hentry
  · exact goes_unread.bind hentry

theorem goes_params : Goes n (fun _ => 2) (params type) := by
  refine goes_expect.bind fun _ => (goes_commaList (goes_paramEntry ht)).bind fun entries => ?_
  split
  · exact goes_pure rfl
  · exact goes_fail _

theorem goes_results : Goes n (fun _ => 0) (results type) := by
  refine .peek goes_unread fun t ts => ?_
  split
  · exact (goes_params ht).bind (fun _ => goes_pure rfl) _
  · refine goes_ite ?_ ?_ _
    · exact ht.bind fun _ => goes_pure rfl
    · exact goes_unread
  · exact goesFrom_pure rfl

theorem goes_signature : Goes n (fun _ => 2) (signature type) :=
  (goes_params ht).bind fun _ => (goes_results ht).bind fun _ => goes_pure rfl

theorem goes_typeTerm : Goes n (fun _ => 1) (typeTerm type) :=
  .eat (ht.bind fun _ => goes_pure rfl) ht

theorem goes_typeElem : Goes n (fun _ => 1) (typeElem type) := by
  refine (goes_separated (goes_typeTerm ht)).bind fun terms => ?_
  split <;> exact goes_pure rfl

theorem goes_typeParamsTurn (pending : List String) :
    Goes n (Turn.least 1) (typeParamsTurn type pending) := by
  refine .eat ?_ (goes_ident.bind fun name => .eat (goes_pure rfl) ?_)
  · show Goes _ _ (if pending.isEmpty then pure (Turn.done []) else fail _)
    exact goes_ite (goes_pure rfl) (goes_fail _)
  · refine (goes_typeElem ht).bind fun constraint => .isAt fun atClose => ?_
    exact goes_ite (goes_pure rfl) (goes_expect.bind fun _ => goes_pure rfl)

theorem goes_typeParams : Goes n (fun _ => 2) (typeParams type) := by
  refine goes_expect.bind fun _ => .remaining fun ts => ?_
  rw [typeParamsLoop_eq]
  exact goesFrom_turns (goes_typeParamsTurn ht) [] ts

theorem goes_structField : Goes n (fun _ => 1) (structField type) := by
  have htag : ∀ names : List String, Goes n (fun _ => 1) (type >>= fieldEnd names) := by
    intro names
    refine ht.bind fun t => .peek (goes_pure rfl) fun u us => ?_
    split
    · exact .skip (goes_pure rfl)
    · exact .skip (goes_pure rfl)
    · exact goesFrom_pure rfl
  refine .remaining fun ts => goes_ite ?_ ?_ ts
  · exact (goes_idents.mono (Nat.le_refl n) fun _ => Nat.zero_le _).bind htag
  · exact goes_unread.bind htag

/-- A struct type begins with tokens of its own, so that its entries may be as deep as the counter
says. -/
theorem goes_structType : Goes (n + 1) (fun _ => 3) (structType type) := by
  refine .expect fun _ => goes_expect.bind fun _ => ?_
  exact (goes_semicolonList (goes_structField ht)).bind fun _ => goes_pure rfl

theorem goes_interfaceElem : Goes n (fun _ => 1) (interfaceElem type) := by
  refine .remaining fun ts => goes_ite ?_ ?_ ts
  · exact goes_ident.bind fun _ => (goes_signature ht).bind fun _ => goes_pure rfl
  · exact (goes_typeElem ht).bind fun _ => goes_pure rfl

theorem goes_interfaceType : Goes (n + 1) (fun _ => 3) (interfaceType type) := by
  refine .expect fun _ => goes_expect.bind fun _ => ?_
  exact (goes_semicolonList (goes_interfaceElem ht)).bind fun _ => goes_pure rfl

theorem goes_typeName : Goes (n + 1) (fun _ => 1) (typeName type) := by
  have hargs : ∀ base : TypeExpr, Goes n (fun _ => 0) (do
      if ← eat .lbrack then
        return .instantiated base (← commaList .rbrack "',' or ']'" type)
      else return base) :=
    fun base => .eat ((goes_commaList ht).bind fun _ => goes_pure rfl) (goes_pure rfl)
  refine fun ts => (goes_ident ts).andThen fun first => .eat ?_ ?_
  · exact (goes_ident.map _).bind hargs
  · exact goes_unread.bind hargs

theorem goes_arrayType : Goes (n + 1) (fun _ => 2) (arrayType type) := by
  refine .expect fun _ => .eat ?_ (.remaining fun ts => ?_)
  · exact ht.bind fun _ => goes_pure rfl
  · split
    · exact goes_fail _ _
    · next run close rest hs => exact .enclosed hs (ht.bind fun _ => goes_pure rfl)

end Parts

theorem goes_unsupportedType {n : Nat} : Goes n (fun _ => 1) unsupportedType := by
  refine .remaining fun ts => ?_
  split
  · exact goes_fail _ _
  · next run rest hne hs =>
    exact .text hs hne (goes_pure rfl)

/-- **A type is at least one token**, and the counter for its depth suffices if it is above the number
of tokens. -/
theorem goes_typeAt (n : Nat) : Goes n (fun _ => 1) (typeAt n) := by
  induction n with
  | zero => exact goes_exhaust
  | succ n ih =>
    refine .peek (goes_fail _) fun t ts => ?_
    split
    · next h => cases h
    · exact (goes_typeName ih) _
    · exact .advance (ih.bind fun _ => goes_pure rfl)
    · exact (goes_arrayType ih).mono (Nat.le_refl _) (fun _ => by decide) _
    · exact .advance (ih.bind fun _ => goes_expect.bind fun _ => goes_pure rfl)
    · exact .advance ((goes_signature ih).bind fun _ => goes_pure rfl)
    · refine .advance (goes_expect.bind fun _ => ih.bind fun _ => goes_expect.bind fun _ => ?_)
      exact ih.bind fun _ => goes_pure rfl
    · have helem : ∀ dir, Goes n (fun _ => 0) (do return TypeExpr.chan dir (← typeAt n)) :=
        fun dir => ih.bind fun _ => goes_pure rfl
      exact .advance (.eat (helem _) (helem _))
    · exact .advance (goes_expect.bind fun _ => ih.bind fun _ => goes_pure rfl)
    · exact (goes_structType ih).mono (Nat.le_refl _) (fun _ => by decide) _
    · exact (goes_interfaceType ih).mono (Nat.le_refl _) (fun _ => by decide) _
    · exact goes_unsupportedType _

theorem goes_typeExpr {n : Nat} : Goes n (fun _ => 1) typeExpr := by
  refine .remaining fun ts => ?_
  have hat := goes_typeAt (ts.length + 1) ts
  exact ⟨hat.ok, hat.unmet, fun he => absurd (hat.exhausted he) (Nat.not_succ_le_self _)⟩

/-! ## Declarations -/

section Declarations

variable {α : Type} {n : Nat}

theorem goes_importPath (name : Option String) : Goes n (fun _ => 1) (importPath name) := by
  refine .remaining fun ts => ?_
  split
  · next t rest =>
    split
    · have happend : [t] ++ rest = t :: rest := rfl
      exact .continueAt happend (List.cons_ne_nil t []) (goes_pure rfl)
    · exact goes_fail _ _
  · exact goes_fail _ _

theorem goes_importSpec : Goes n (fun _ => 1) importSpec := by
  refine .peek (goes_importPath none) fun t ts => ?_
  split
  · exact (goes_ident.map some).bind goes_importPath _
  · exact .skip ((goes_importPath (some ".")).mono (Nat.le_refl n) fun _ => Nat.zero_le _)
  · exact goes_importPath none _

theorem goes_initializer : Goes n (fun _ => 1) initializer := by
  refine .remaining fun ts => ?_
  split
  · exact goes_fail _ _
  · next run rest hne hs =>
    exact .text hs hne (goes_pure rfl)

theorem goes_valueSpec : Goes n (fun _ => 1) valueSpec := by
  have hvalues : ∀ (names : List String) (type : Option TypeExpr), Goes n (fun _ => 0) (do
      let values ← if ← eat .assign then separated .comma initializer else pure []
      return ValueSpec.mk names type values) := by
    intro names type
    refine .eat ?_ (goes_unread.bind fun _ => goes_pure rfl)
    exact (goes_separated goes_initializer).bind fun _ => goes_pure rfl
  have hnone : ∀ names, Goes n (fun _ => 0) (do
      let type ← pure none
      let values ← if ← eat .assign then separated .comma initializer else pure []
      return ValueSpec.mk names type values) :=
    fun names => goes_unread.bind (hvalues names)
  refine goes_idents.bind fun names => .peek (hnone names) fun t ts => ?_
  split
  · exact hnone names _
  · exact hnone names _
  · exact hnone names _
  · exact hnone names _
  · exact (goes_typeExpr.map some).bind (hvalues names) _

theorem goes_typeSpec : Goes n (fun _ => 2) typeSpec := by
  have hrest : ∀ (name : String) (params : List FieldGroup), Goes n (fun _ => 1) (do
      let isAlias ← eat .assign
      let type ← typeExpr
      return TypeSpec.mk name params isAlias type) :=
    fun name params => .eat (goes_typeExpr.bind fun _ => goes_pure rfl)
      (goes_typeExpr.bind fun _ => goes_pure rfl)
  refine goes_ident.bind fun name => .remaining fun ts => goes_ite ?_ ?_ ts
  · refine (goes_typeParams goes_typeExpr).bind fun params => ?_
    exact (hrest name params).mono (Nat.le_refl n) fun _ => by decide
  · exact goes_unread.bind (hrest name)

/-- A body is at least its two braces. -/
theorem goes_body : Goes n (fun _ => 2) body := by
  refine .remaining fun ts => ?_
  split
  · exact goes_fail _ _
  · next t ts =>
    split
    · exact goes_fail _ _
    · next run close rest hs =>
      have hinner : GoesFrom ts n (fun _ => 1) (do
          continueAt rest
          return Token.inner run close) := .enclosed hs (goes_pure rfl)
      exact (hinner.cons rfl).mono (Nat.le_succ n) fun _ => Nat.le_refl _

theorem goes_funcDecl : Goes n (fun _ => 4) funcDecl := by
  -- From the last part to the first, with the tokens that each of them takes at least.
  have hbody : ∀ (receiver : Option (List FieldGroup)) (name : String) (s : Signature),
      Goes n (fun _ => 0) (do
        let body ← if ← isAt .lbrace then some <$> body else pure none
        return FuncDecl.mk receiver name s body) := by
    intro receiver name s
    refine .isAt fun atBrace => ?_
    cases atBrace with
    | true => exact (goes_body.map some).bind fun _ => goes_pure rfl
    | false => exact goes_unread.bind fun _ => goes_pure rfl
  have hsignature : ∀ (receiver : Option (List FieldGroup)) (name : String)
      (typeParams : List FieldGroup), Goes n (fun _ => 2) (do
        let ps ← params typeExpr
        let rs ← results typeExpr
        let body ← if ← isAt .lbrace then some <$> body else pure none
        return FuncDecl.mk receiver name (.mk typeParams ps rs) body) :=
    fun receiver name typeParams => (goes_params goes_typeExpr).bind fun ps =>
      (goes_results goes_typeExpr).bind fun rs => hbody receiver name (.mk typeParams ps rs)
  have hname : ∀ receiver : Option (List FieldGroup), Goes n (fun _ => 3) (do
      let name ← ident
      let typeParams ← if ← isAt .lbrack then typeParams typeExpr else pure []
      let ps ← params typeExpr
      let rs ← results typeExpr
      let body ← if ← isAt .lbrace then some <$> body else pure none
      return FuncDecl.mk receiver name (.mk typeParams ps rs) body) := by
    intro receiver
    refine goes_ident.bind fun name => .isAt fun atBracket => ?_
    cases atBracket with
    | true =>
      refine (goes_typeParams goes_typeExpr).bind fun typeParams => ?_
      exact (hsignature receiver name typeParams).mono (Nat.le_refl n) fun _ => by decide
    | false => exact goes_unread.bind (hsignature receiver name)
  refine goes_expect.bind fun _ => .isAt fun atList => ?_
  cases atList with
  | true => exact ((goes_params goes_typeExpr).map some).bind hname
  | false => exact goes_unread.bind hname

theorem goes_group {spec : Parser α} (h : Goes n (fun _ => 1) spec) :
    Goes n (fun _ => 1) (group spec) :=
  .eat ((goes_semicolonList h).mono (Nat.le_refl n) fun _ => Nat.zero_le _)
    (h.bind fun _ => goes_pure rfl)

theorem goes_endOfDecl : Goes n (fun _ => 0) endOfDecl := by
  have hsemi : Goes n (fun _ => 0) (do
      unless ← eat .semi do fail "expected ';' after declaration") :=
    .eat goes_unread (goes_fail _)
  exact .peek goes_unread fun t ts => hsemi (t :: ts)

/-- A declaration begins with its keyword. -/
theorem goes_topLevel (t : Token) (ts : List Token) :
    GoesFrom (t :: ts) n (fun _ => 1) (topLevel t.kind) := by
  have hkeyword : ∀ {β : Type} {spec : Parser β} (f : List β → TopLevel),
      Goes n (fun _ => 1) spec → GoesFrom (t :: ts) n (fun _ => 1) (do
        advance
        return f (← group spec)) := by
    intro β spec f hspec
    exact .skip ((goes_group hspec).bind fun _ => goes_pure rfl)
  generalize t.kind = kind
  unfold topLevel
  split
  · exact hkeyword _ goes_importSpec
  · exact hkeyword _ goes_valueSpec
  · exact hkeyword _ goes_valueSpec
  · exact hkeyword _ (goes_typeSpec.mono (Nat.le_refl n) fun _ => by decide)
  · exact goes_funcDecl.bind (fun _ => goes_pure rfl) _
  · exact goes_fail _ _

theorem goes_topLevelTurn (u : Unit) : Goes n (Turn.least 0) (topLevelTurn u) := by
  refine .peek (goes_pure rfl) fun t ts => ?_
  show GoesFrom (t :: ts) n _ (if t.kind = .semi then _ else _)
  split
  · exact .skip (goes_pure rfl)
  · exact (goes_topLevel t ts).bind fun _ => goes_endOfDecl.bind fun _ => goes_pure rfl

theorem goes_file : Goes n (fun _ => 2) file := by
  refine .remaining fun ts => ?_
  refine goes_expect.bind (fun _ => goes_ident.bind fun _ => goes_endOfDecl.bind fun _ => ?_) ts
  refine .remaining fun ts => ?_
  rw [topLevelsLoop_eq]
  exact (goesFrom_turns goes_topLevelTurn () ts).bind fun _ => goes_pure rfl

end Declarations

/-! ## The parsers of a file -/

/-- The parsers of types: one for each counter, and the one with a counter that suffices. -/
inductive ReadsTypes : Parser TypeExpr → Prop
  | typeAt (n : Nat) : ReadsTypes (typeAt n)
  | typeExpr : ReadsTypes typeExpr

theorem ReadsTypes.goes {type : Parser TypeExpr} (h : ReadsTypes type) :
    Goes 0 (fun _ => 1) type := by
  cases h with
  | typeAt n => exact (goes_typeAt n).mono (Nat.zero_le n) fun _ => Nat.le_refl 1
  | typeExpr => exact goes_typeExpr

/-- The parsers of the entries of a declaration. -/
inductive ReadsSpecs : ∀ {α : Type}, Parser α → Prop
  | imports : ReadsSpecs importSpec
  | values : ReadsSpecs valueSpec
  | types : ReadsSpecs typeSpec

theorem ReadsSpecs.goes {α : Type} {spec : Parser α} (h : ReadsSpecs spec) :
    Goes 0 (fun _ => 1) spec := by
  cases h with
  | imports => exact goes_importSpec
  | values => exact goes_valueSpec
  | types => exact goes_typeSpec.mono (Nat.le_refl 0) fun _ => by decide

/-- The loops of the parser, with their turns. -/
inductive IsLoop : ∀ {σ β : Type}, (σ → Parser (Turn σ β)) → (Nat → σ → Parser β) → Prop
  | file : IsLoop topLevelTurn fun n _ => topLevelsLoop n
  | group {α : Type} {spec : Parser α} (what : String) : ReadsSpecs spec →
      IsLoop (semicolonTurn .rparen what spec) fun n _ => semicolonListLoop .rparen what spec n
  | typeParams {type : Parser TypeExpr} : ReadsTypes type →
      IsLoop (typeParamsTurn type) (typeParamsLoop type)
  | params {type : Parser TypeExpr} (what : String) : ReadsTypes type →
      IsLoop (commaTurn .rparen what (paramEntry type))
        fun n _ => commaListLoop .rparen what (paramEntry type) n
  | arguments {type : Parser TypeExpr} (what : String) : ReadsTypes type →
      IsLoop (commaTurn .rbrack what type) fun n _ => commaListLoop .rbrack what type n
  | fields {type : Parser TypeExpr} (what : String) : ReadsTypes type →
      IsLoop (semicolonTurn .rbrace what (structField type))
        fun n _ => semicolonListLoop .rbrace what (structField type) n
  | elems {type : Parser TypeExpr} (what : String) : ReadsTypes type →
      IsLoop (semicolonTurn .rbrace what (interfaceElem type))
        fun n _ => semicolonListLoop .rbrace what (interfaceElem type) n
  | terms {type : Parser TypeExpr} : ReadsTypes type →
      IsLoop (separatedTurn .pipe (typeTerm type)) fun n _ => separatedTail .pipe (typeTerm type) n
  | initializers : IsLoop (separatedTurn .comma initializer)
      fun n _ => separatedTail .comma initializer n
  | names : IsLoop (separatedTurn .comma ident) fun n _ => separatedTail .comma ident n

section Loops

variable {σ β : Type} {turn : σ → Parser (Turn σ β)} {loop : Nat → σ → Parser β}

theorem IsLoop.eq_takeTurns (h : IsLoop turn loop) (n : Nat) (state : σ) :
    loop n state = takeTurns turn n state := by
  cases h with
  | file => exact topLevelsLoop_eq n
  | group | fields | elems => exact semicolonListLoop_eq _ _ _ n
  | typeParams => exact typeParamsLoop_eq _ n state
  | params | arguments => exact commaListLoop_eq _ _ _ n
  | terms | initializers | names => exact separatedTail_eq _ _ n

theorem IsLoop.goes (h : IsLoop turn loop) : ∃ last, ∀ state, Goes 0 (Turn.least last) (turn state) := by
  cases h with
  | file => exact ⟨0, goes_topLevelTurn⟩
  | group _ hspec => exact ⟨1, goes_semicolonTurn hspec.goes⟩
  | typeParams ht => exact ⟨1, goes_typeParamsTurn ht.goes⟩
  | params _ ht => exact ⟨1, goes_commaTurn (goes_paramEntry ht.goes)⟩
  | arguments _ ht => exact ⟨1, goes_commaTurn ht.goes⟩
  | fields _ ht => exact ⟨1, goes_semicolonTurn (goes_structField ht.goes)⟩
  | elems _ ht => exact ⟨1, goes_semicolonTurn (goes_interfaceElem ht.goes)⟩
  | terms ht => exact ⟨0, goes_separatedTurn (goes_typeTerm ht.goes)⟩
  | initializers => exact ⟨0, goes_separatedTurn goes_initializer⟩
  | names => exact ⟨0, goes_separatedTurn goes_ident⟩

end Loops

/-- The functions that the parser of a file is made of. -/
inductive IsPart : ∀ {α : Type}, Parser α → Prop
  | file : IsPart file
  | endOfDecl : IsPart endOfDecl
  | group {α : Type} {spec : Parser α} : ReadsSpecs spec → IsPart (group spec)
  | spec {α : Type} {spec : Parser α} : ReadsSpecs spec → IsPart spec
  | funcDecl : IsPart funcDecl
  | body : IsPart body
  | initializer : IsPart initializer
  | initializers : IsPart (separated .comma initializer)
  | type {type : Parser TypeExpr} : ReadsTypes type → IsPart type
  | typeParams {type : Parser TypeExpr} : ReadsTypes type → IsPart (typeParams type)
  | signature {type : Parser TypeExpr} : ReadsTypes type → IsPart (signature type)
  | results {type : Parser TypeExpr} : ReadsTypes type → IsPart (results type)
  | params {type : Parser TypeExpr} : ReadsTypes type → IsPart (params type)
  | paramEntry {type : Parser TypeExpr} : ReadsTypes type → IsPart (paramEntry type)
  | structType {type : Parser TypeExpr} : ReadsTypes type → IsPart (structType type)
  | structField {type : Parser TypeExpr} : ReadsTypes type → IsPart (structField type)
  | interfaceType {type : Parser TypeExpr} : ReadsTypes type → IsPart (interfaceType type)
  | interfaceElem {type : Parser TypeExpr} : ReadsTypes type → IsPart (interfaceElem type)
  | typeElem {type : Parser TypeExpr} : ReadsTypes type → IsPart (typeElem type)
  | typeTerm {type : Parser TypeExpr} : ReadsTypes type → IsPart (typeTerm type)
  | typeName {type : Parser TypeExpr} : ReadsTypes type → IsPart (typeName type)
  | arrayType {type : Parser TypeExpr} : ReadsTypes type → IsPart (arrayType type)
  | unsupportedType : IsPart unsupportedType
  | loop {σ β : Type} {turn : σ → Parser (Turn σ β)} {loop : Nat → σ → Parser β} (n : Nat)
      (state : σ) : IsLoop turn loop → IsPart (loop n state)
  | turn {σ β : Type} {turn : σ → Parser (Turn σ β)} {loop : Nat → σ → Parser β} (state : σ) :
      IsLoop turn loop → IsPart (turn state)
  | names : IsPart idents
  | name : IsPart ident
  | expect (kind : Kind) (what : String) : IsPart (expect kind what)
  | eat (kind : Kind) : IsPart (eat kind)

theorem IsPart.goes {α : Type} {p : Parser α} (h : IsPart p) : Goes 0 (fun _ => 0) p := by
  have hcount : ∀ {k : Nat} {β : Type} {q : Parser β}, Goes 0 (fun _ => k) q →
      Goes 0 (fun _ => 0) q :=
    fun hq => hq.mono (Nat.le_refl 0) fun _ => Nat.zero_le _
  -- Most parts go further than at least nowhere, which is all that they have in common.
  cases h with
  | file => exact hcount goes_file
  | endOfDecl => exact goes_endOfDecl
  | group hspec => exact hcount (goes_group hspec.goes)
  | spec hspec => exact hcount hspec.goes
  | funcDecl => exact hcount goes_funcDecl
  | body => exact hcount goes_body
  | initializer => exact hcount goes_initializer
  | initializers => exact hcount (goes_separated goes_initializer)
  | type ht => exact hcount ht.goes
  | typeParams ht => exact hcount (goes_typeParams ht.goes)
  | signature ht => exact hcount (goes_signature ht.goes)
  | results ht => exact goes_results ht.goes
  | params ht => exact hcount (goes_params ht.goes)
  | paramEntry ht => exact hcount (goes_paramEntry ht.goes)
  | structType ht => exact (goes_structType ht.goes).mono (Nat.zero_le 1) fun _ => Nat.zero_le 3
  | structField ht => exact hcount (goes_structField ht.goes)
  | interfaceType ht =>
    exact (goes_interfaceType ht.goes).mono (Nat.zero_le 1) fun _ => Nat.zero_le 3
  | interfaceElem ht => exact hcount (goes_interfaceElem ht.goes)
  | typeElem ht => exact hcount (goes_typeElem ht.goes)
  | typeTerm ht => exact hcount (goes_typeTerm ht.goes)
  | typeName ht => exact (goes_typeName ht.goes).mono (Nat.zero_le 1) fun _ => Nat.zero_le 1
  | arrayType ht => exact (goes_arrayType ht.goes).mono (Nat.zero_le 1) fun _ => Nat.zero_le 2
  | unsupportedType => exact hcount goes_unsupportedType
  | loop n state hloop =>
    obtain ⟨last, hturn⟩ := hloop.goes
    rw [hloop.eq_takeTurns]
    exact (goes_takeTurns hturn n state).mono (Nat.zero_le _) fun _ => Nat.zero_le _
  | turn state hloop =>
    obtain ⟨last, hturn⟩ := hloop.goes
    exact (hturn state).mono (Nat.le_refl 0) fun _ => Nat.zero_le _
  | names => exact hcount goes_idents
  | name => exact hcount goes_ident
  | expect kind what => exact hcount goes_expect
  | eat kind =>
    have heat : Goes 0 (fun _ => 0) (Parser.eat kind >>= pure) := .eat goes_unread goes_unread
    rwa [bind_pure] at heat

/-! ## What is taken of the source -/

/-- The texts that the parser takes of the source in front of some tokens, with the bytes between
which they stand: the text between a bracket and the one that closes it, and the text of a balanced
run. -/
inductive Takes : List Token → String → Nat → Nat → Prop
  | inner {opening close : Token} {us run rest : List Token} :
      Token.splitClose? 0 us = some (run, close, rest) →
      Takes (opening :: us) (Token.inner run close) opening.stop close.start
  | spell {delimiters : List Kind} {us run rest : List Token} {first last : Token} :
      Token.splitBalanced delimiters 0 us = (run, rest) → run.head? = some first →
      run.getLast? = some last → Takes us (Token.spell run) first.start last.stop

theorem Takes.isSlice {source text : String} {pre us : List Token} {start stop : Nat}
    (h : Takes us text start stop) (ht : tokenize source = .ok (pre ++ us)) :
    IsSlice source start stop text := by
  cases h with
  | inner hs =>
    rw [splitClose?_eq hs] at ht
    exact isSlice_inner ht
  | @spell delimiters _ run rest first last hs hfirst hlast =>
    have happend := splitBalanced_append delimiters 0 us
    rw [hs] at happend
    rw [← happend] at ht
    exact isSlice_spell ht hfirst hlast

section Results

variable {us rest : List Token}

theorem takes_spell {delimiters : List Kind} {run : List Token}
    (hs : Token.splitBalanced delimiters 0 us = (run, rest)) (hne : run ≠ []) :
    ∃ start stop, Takes us (Token.spell run) start stop :=
  ⟨_, _, .spell hs (List.head?_eq_some_head hne) (List.getLast?_eq_some_getLast hne)⟩

theorem body_takes {text : String} (h : body us = .ok (text, rest)) :
    ∃ start stop, Takes us text start stop := by
  cases us with
  | nil => cases h
  | cons t us =>
    obtain ⟨run, close, hs, rfl⟩ := body_eq_ok h
    exact ⟨_, _, .inner hs⟩

theorem initializer_takes {value : Initializer} (h : initializer us = .ok (value, rest)) :
    ∃ start stop, Takes us value.text start stop := by
  obtain ⟨run, hne, hs, rfl⟩ := initializer_eq_ok h
  exact takes_spell hs hne

theorem unsupportedType_takes {t : TypeExpr} (h : unsupportedType us = .ok (t, rest)) :
    ∃ text start stop, Takes us text start stop ∧ t = .unsupported text := by
  obtain ⟨run, hne, hs, rfl⟩ := unsupportedType_eq_ok h
  obtain ⟨start, stop, htakes⟩ := takes_spell hs hne
  exact ⟨_, start, stop, htakes, rfl⟩

/-- The length of an array is what stands in its brackets, without the blanks around it. -/
theorem arrayType_takes {type : Parser TypeExpr} {t : TypeExpr}
    (h : arrayType type us = .ok (t, rest)) :
    ∃ elem, t = .array none elem ∨ ∃ text start stop, Takes us text start stop ∧
      t = .array (some (.literal (String.ofList (Text.trim text.toList)))) elem := by
  obtain ⟨opening, mid, hopening, hmid⟩ := bind_eq_ok h
  clear h
  obtain ⟨rfl, -⟩ := expect_eq_ok hopening
  obtain ⟨eaten, after, heat, hafter⟩ := bind_eq_ok hmid
  obtain ⟨rfl, -⟩ | ⟨rfl, rfl⟩ := eat_eq_ok heat
  · obtain ⟨elem, _, -, hend⟩ := bind_eq_ok hafter
    cases hend
    exact ⟨elem, Or.inl rfl⟩
  · rw [if_neg Bool.false_ne_true, bind_apply, remaining_apply] at hafter
    dsimp only at hafter
    cases hs : Token.splitClose? 0 mid with
    | none =>
      rw [hs] at hafter
      cases hafter
    | some split =>
      obtain ⟨run, close, behind⟩ := split
      rw [hs] at hafter
      have hbehind : (do
          let elem ← type
          return TypeExpr.array (some (.literal
            (String.ofList (Text.trim (Token.inner run close).toList)))) elem) behind =
          .ok (t, rest) := hafter
      obtain ⟨elem, _, -, hend⟩ := bind_eq_ok hbehind
      cases hend
      exact ⟨elem, Or.inr ⟨_, _, _, .inner hs, rfl⟩⟩

end Results

/-! ## Files -/

theorem file_not_exhausted (ts : List Token) : file ts ≠ .error .exhausted :=
  fun h => absurd ((goes_file ts).exhausted h) (Nat.not_succ_le_self ts.length)

/-- **A text with tokens is parsed or refused**: it is parsed if the parser reads all of them, and
refused for what it has found behind those that it has read. -/
theorem parse_answers {source : String} {ts : List Token} (h : tokenize source = .ok ts) :
    (∃ parsed, file ts = .ok (parsed, []) ∧ SourceFile.parse source = .ok parsed) ∨
      ∃ message rest, rest <:+ ts ∧ file ts = .error (.unmet message rest) ∧
        SourceFile.parse source = .error ((ParseFault.unmet message rest).error source ts) := by
  rw [SourceFile.parse, h]
  cases hfile : file ts with
  | ok read =>
    obtain ⟨parsed, rest⟩ := read
    obtain rfl := file_rest hfile
    exact Or.inl ⟨parsed, rfl, by simp only [bind, Except.bind, hfile]; rfl⟩
  | error fault =>
    cases fault with
    | exhausted => exact absurd hfile (file_not_exhausted ts)
    | unmet message rest =>
      refine Or.inr ⟨message, rest, (goes_file (n := 0) ts).unmet message rest hfile, rfl, ?_⟩
      simp only [bind, Except.bind, hfile]
      rfl

/-! ## Progress -/

/-- How the parser goes on in the tokens of a text. Where it stands is said by the tokens that are
left. -/
structure GoesOn (source : String) (ts : List Token) : Prop where
  /-- A loop takes turns, and with each turn that it goes on from it has read a token. -/
  loops : ∀ {σ β : Type} {turn : σ → Parser (Turn σ β)} {loop : Nat → σ → Parser β},
    IsLoop turn loop → (∀ n state, loop n state = takeTurns turn n state) ∧
      ∀ state us next join rest, turn state us = .ok (.again next join, rest) →
        rest <:+ us ∧ rest.length < us.length
  /-- A type that is read has a token. -/
  types : ∀ {type : Parser TypeExpr}, ReadsTypes type → ∀ us t rest, type us = .ok (t, rest) →
    rest <:+ us ∧ rest.length < us.length
  /-- No part of the parser goes back, also if it gives up, and none goes on behind the end. -/
  parts : ∀ {α : Type} {p : Parser α}, IsPart p → ∀ us,
    (∀ v rest, p us = .ok (v, rest) → rest <:+ us) ∧
      ∀ message rest, p us = .error (.unmet message rest) → rest <:+ us
  /-- The counters of the parser do not run out. -/
  ends : file ts ≠ .error .exhausted
  /-- If the file is parsed, no token is left. -/
  whole : ∀ parsed rest, file ts = .ok (parsed, rest) → rest = []
  /-- The text is parsed with all its tokens, or a part of the parser has given up in front of some
  of them. -/
  answers : (∃ parsed, file ts = .ok (parsed, []) ∧ SourceFile.parse source = .ok parsed) ∨
    ∃ message rest, rest <:+ ts ∧ file ts = .error (.unmet message rest) ∧
      SourceFile.parse source = .error ((ParseFault.unmet message rest).error source ts)
  /-- What is taken of the source stands between two ends of tokens, whether what it belongs to is
  parsed or not. -/
  slices : ∀ pre us text start stop, ts = pre ++ us → Takes us text start stop →
    start ≤ stop ∧ IsSlice source start stop text
  /-- The header ends where the first token begins. It is what a file is called generated for. -/
  header : ∀ t us, ts = t :: us → IsSlice source 0 t.start t.gap ∧ ∀ parsed,
    SourceFile.parse source = .ok parsed → parsed.isGenerated = isGeneratedHeader t.gap
  bodies : ∀ us text rest, body us = .ok (text, rest) → ∃ start stop, Takes us text start stop
  values : ∀ us value rest, initializer us = .ok (value, rest) →
    ∃ start stop, Takes us value.text start stop
  unsupported : ∀ us t rest, unsupportedType us = .ok (t, rest) →
    ∃ text start stop, Takes us text start stop ∧ t = .unsupported text
  lengths : ∀ (type : Parser TypeExpr) us t rest, arrayType type us = .ok (t, rest) →
    ∃ elem, t = .array none elem ∨ ∃ text start stop, Takes us text start stop ∧
      t = .array (some (.literal (String.ofList (Text.trim text.toList)))) elem

/-- **The parser always makes progress**, whether the text is a file or not. -/
theorem parser_goesOn {source : String} {ts : List Token} (h : tokenize source = .ok ts) :
    GoesOn source ts where
  loops := by
    intro σ β turn loop hloop
    refine ⟨hloop.eq_takeTurns, fun state us next join rest hturn => ?_⟩
    obtain ⟨last, hgoes⟩ := hloop.goes
    exact (hgoes state us).ok _ rest hturn
  types := by
    intro type htype us t rest hread
    exact (htype.goes us).ok t rest hread
  parts := by
    intro α p hpart us
    exact ⟨fun v rest hread => ((hpart.goes us).ok v rest hread).1, (hpart.goes us).unmet⟩
  ends := file_not_exhausted ts
  whole := fun _ _ hread => file_rest hread
  answers := parse_answers h
  slices := by
    rintro pre us text start stop rfl htakes
    have hslice := htakes.isSlice h
    exact ⟨hslice.le, hslice⟩
  header := by
    rintro t us rfl
    refine ⟨isSlice_header h, fun parsed hparse => ?_⟩
    obtain ⟨ts, rest, htokens, hread⟩ := parse_eq_ok hparse
    obtain rfl := Except.ok.inj (h.symm.trans htokens)
    -- The first token of the file is the keyword, and the header is the gap in front of it.
    obtain ⟨keyword, name, mid, us, items, hparts, -, -, -, -, rfl⟩ := file_parts hread
    rw [(List.cons.inj hparts).1]
  bodies := fun _ _ _ hread => body_takes hread
  values := fun _ _ _ hread => initializer_takes hread
  unsupported := fun _ _ _ hread => unsupportedType_takes hread
  lengths := fun _ _ _ _ hread => arrayType_takes hread

/-- A file that breaks off in the length of an array. -/
theorem parser_goesOn_truncated : GoesOn "package p\nvar a [" [
    { kind := .kwPackage, gap := "", text := "package", start := 0 },
    { kind := .ident, gap := " ", text := "p", start := 8 },
    { kind := .semi, gap := "", text := "", start := 9 },
    { kind := .kwVar, gap := "\n", text := "var", start := 10 },
    { kind := .ident, gap := " ", text := "a", start := 14 },
    { kind := .lbrack, gap := " ", text := "[", start := 16 }] :=
  parser_goesOn (by cbv)

end Understudy.Source

import Understudy.Proofs.Lookahead
import Understudy.Proofs.Parsing

/-!
# Reading types back

The type parser reads off the tokens of a written type the type that was written, whatever the
type and whatever follows it:

> **`typeAt` reads the lexemes of a type** (`IsType.reads`),

provided that the token behind the type carries none on. A point would, and so would anything that
begins a type, since it would be taken for the result of a function.

The counter of `typeAt` has to be at least the number of tokens of the type; that gives enough to
every part, since every level of a type has a token of its own.
-/

set_option autoImplicit false

namespace Understudy.Source

open Understudy.Source.Parser

@[simp] theorem Parser.tokenCount_ofWord (w : String) (ls : List Lexeme) :
    tokenCount (.ofWord w :: ls) = tokenCount ls + 1 :=
  tokenCount_token _ _ _

section Reading

variable {erased : Bool} {p : Parser TypeExpr} {n : Nat}

/-! ## Entries of parameter lists -/

/-- Whether a token of a kind can stand behind a type without carrying it on. -/
def Kind.endsType (k : Kind) : Bool := k != .dot && !k.startsType

/-- Whether the parser reads a type off the tokens of some lexemes. -/
def ReadsAs (ls : List Lexeme) (t : TypeExpr) : Prop :=
  ∀ (n : Nat) (s : Scanner) (u : Token) (rest : List Token), u.kind.endsType = true →
    tokenCount ls ≤ n → typeAt n (s.tokens ls ++ u :: rest) = .ok (t, u :: rest)

/-- Whether the parser reads a type off its own lexemes. -/
def ReadsType (erased : Bool) (t : TypeExpr) : Prop := ReadsAs (typeLexemes erased t) t

/-- Whether a parser reads types of at most `n` tokens. -/
def Serves (p : Parser TypeExpr) (n : Nat) : Prop :=
  ∀ {ls : List Lexeme} {t : TypeExpr}, ReadsAs ls t → tokenCount ls ≤ n → ∀ (s : Scanner)
    {u : Token}, u.kind.endsType = true → ∀ rest : List Token,
    p (s.tokens ls ++ u :: rest) = .ok (t, u :: rest)

theorem serves_typeAt (n : Nat) : Serves (typeAt n) n :=
  fun h hn s _ hu rest => h n s _ rest hu hn

/-- The parser that takes its counter from the tokens left reads all types. -/
theorem serves_typeExpr (n : Nat) : Serves typeExpr n := by
  intro ls t h _ s u hu rest
  rw [typeExpr, bind_apply, remaining_apply]
  refine h _ s u rest hu (Nat.le_trans (tokenCount_le_length s ls) ?_)
  simp only [List.length_append]
  omega

/-- What is known of the parts of a type in the induction. -/
def IsRead (erased : Bool) (t : TypeExpr) : Prop :=
  ∃ _ : IsType Leaf.ReadsBack erased t, ReadsType erased t

/-- The entries that a field is written as: one for each name, the last of them with the type. -/
def fieldEntries (type : TypeExpr) : List String → List ParamEntry
  | [] => [(none, type)]
  | [name] => [(some name, type)]
  | name :: next :: names => (none, .ident name) :: fieldEntries type (next :: names)

/-- The lexemes of an entry. -/
def entryLexemes (erased : Bool) : ParamEntry → List Lexeme
  | (none, type) => typeLexemes erased type
  | (some name, type) => .ofWord name :: .layout [' '] :: typeLexemes erased type

theorem fieldEntries_ne_nil (type : TypeExpr) (names : List String) :
    fieldEntries type names ≠ [] := by
  match names with
  | [] | [_] | _ :: _ :: _ => simp [fieldEntries]

theorem fieldLexemes_entries (type : TypeExpr) (names : List String) :
    fieldLexemes names (typeLexemes erased type) =
      List.intercalate [.token .comma [','], .layout [' ']]
        ((fieldEntries type names).map (entryLexemes erased)) := by
  fun_induction fieldEntries type names with
  | case1 => simp [fieldLexemes, entryLexemes]
  | case2 name => simp [fieldLexemes, namesLexemes, entryLexemes]
  | case3 name next names ih =>
    obtain ⟨e, es, he⟩ := List.exists_cons_of_ne_nil (fieldEntries_ne_nil type (next :: names))
    rw [he, List.map_cons] at ih
    rw [he, List.map_cons, List.map_cons, List.intercalate_cons_cons, ← ih]
    simp [fieldLexemes, namesLexemes, entryLexemes, typeLexemes, List.intercalate_cons_cons]

theorem intercalate_append {β : Type} {sep : List β} {xss yss : List (List β)} (hx : xss ≠ [])
    (hy : yss ≠ []) :
    List.intercalate sep (xss ++ yss) =
      List.intercalate sep xss ++ sep ++ List.intercalate sep yss := by
  obtain ⟨ys, yss, rfl⟩ := List.exists_cons_of_ne_nil hy
  induction xss with
  | nil => exact absurd rfl hx
  | cons xs xss ih =>
    cases xss with
    | nil => simp [List.intercalate_cons_cons]
    | cons zs xss =>
      have ih := ih (by simp)
      simp only [List.cons_append, List.intercalate_cons_cons, List.append_assoc] at ih ⊢
      rw [ih]

theorem intercalate_flatMap {α β : Type} {sep : List β} {xs : List α} {f : α → List (List β)}
    (h : ∀ x ∈ xs, f x ≠ []) :
    List.intercalate sep (xs.map fun x => List.intercalate sep (f x)) =
      List.intercalate sep (xs.flatMap f) := by
  induction xs with
  | nil => rfl
  | cons x xs ih =>
    obtain ⟨hx, hxs⟩ := List.forall_mem_cons.1 h
    cases xs with
    | nil => simp
    | cons y xs =>
      have hne : (y :: xs).flatMap f ≠ [] := by
        simp only [List.flatMap_cons, ne_eq, List.append_eq_nil_iff, not_and]
        exact fun hy => absurd hy (hxs y List.mem_cons_self)
      rw [List.flatMap_cons, intercalate_append hx hne, ← ih hxs]
      simp [List.intercalate_cons_cons]

theorem fieldsLexemes_entries (fs : List FieldGroup) :
    List.intercalate [.token .comma [','], .layout [' ']] (fieldsLexemes erased fs) =
      List.intercalate [.token .comma [','], .layout [' ']]
        ((fs.flatMap fun f => fieldEntries f.type f.names).map (entryLexemes erased)) := by
  rw [fieldsLexemes_eq, List.map_flatMap,
    ← intercalate_flatMap fun f _ => by simpa using fieldEntries_ne_nil f.type f.names]
  simp only [fieldLexemes_entries]

/-! Entries that are all named, or all without a name, are grouped as they were. -/

theorem groupNamed_fieldEntries (pending : List String) (type : TypeExpr) (name : String)
    (names : List String) (entries : List ParamEntry) :
    groupNamed pending (fieldEntries type (name :: names) ++ entries) =
      (groupNamed [] entries).map (.mk (pending ++ name :: names) type :: ·) := by
  induction names generalizing pending name with
  | nil => simp [fieldEntries, groupNamed]
  | cons next names ih => simp [fieldEntries, groupNamed, ih]

theorem groupNamed_fields {fs : List FieldGroup} (h : ∀ f ∈ fs, f.names ≠ []) :
    groupNamed [] (fs.flatMap fun f => fieldEntries f.type f.names) = some fs := by
  induction fs with
  | nil => rfl
  | cons f fs ih =>
    obtain ⟨hf, hfs⟩ := List.forall_mem_cons.1 h
    obtain ⟨names, type⟩ := f
    obtain ⟨name, names, rfl⟩ := List.exists_cons_of_ne_nil hf
    rw [List.flatMap_cons, FieldGroup.names, FieldGroup.type, groupNamed_fieldEntries, ih hfs]
    rfl

theorem exists_named_entry (type : TypeExpr) (name : String) (names : List String) :
    ∃ e ∈ fieldEntries type (name :: names), e.1.isSome = true := by
  induction names generalizing name with
  | nil => exact ⟨_, List.mem_singleton_self _, rfl⟩
  | cons next names ih =>
    obtain ⟨e, he, hs⟩ := ih next
    exact ⟨e, List.mem_cons_of_mem _ he, hs⟩

theorem groupParams_fields {fs : List FieldGroup} (h : Uniform fs) :
    groupParams (fs.flatMap fun f => fieldEntries f.type f.names) = some fs := by
  unfold groupParams
  split
  · next hall =>
    -- No entry has a name, so no field has one either.
    have hnames : ∀ f ∈ fs, f.names = [] := by
      intro f hf
      rcases h with h | h
      · exact h f hf
      · obtain ⟨name, names, hn⟩ := List.exists_cons_of_ne_nil (h f hf)
        obtain ⟨e, he, hsome⟩ := exists_named_entry f.type name names
        have hnone := List.all_eq_true.1 hall e (List.mem_flatMap.2 ⟨f, hf, hn ▸ he⟩)
        rw [Option.isNone_iff_eq_none.1 hnone] at hsome
        exact absurd hsome (by simp)
    clear hall h
    induction fs with
    | nil => rfl
    | cons f fs ih =>
      obtain ⟨hf, hfs⟩ := List.forall_mem_cons.1 hnames
      obtain ⟨names, type⟩ := f
      rw [FieldGroup.names] at hf
      have ih := Option.some.inj (ih hfs)
      rw [List.flatMap_cons, List.map_append, ih, FieldGroup.names_mk, hf]
      rfl
  · next hall =>
    rcases h with h | h
    · refine absurd (List.all_eq_true.2 fun e he => ?_) hall
      obtain ⟨f, hf, he⟩ := List.mem_flatMap.1 he
      rw [h f hf, fieldEntries, List.mem_singleton] at he
      rw [he]
      rfl
    · exact groupNamed_fields h

/-! ## Reading parameter lists -/

theorem IsRead.first {t : TypeExpr} (h : IsRead erased t) :
    ∃ k text ls, typeLexemes erased t = .token k text :: ls ∧ k.startsType = true :=
  h.1.first

/-- An entry that the parser reads. -/
structure EntryReads (erased : Bool) (n : Nat) (entry : ParamEntry) : Prop where
  name : ∀ s ∈ entry.1, Kind.ofWord s = .ident
  type : IsParamOf (IsRead erased) entry.2
  count : tokenCount (typeLexemes erased entry.2) ≤ n

/-- The type of an entry, perhaps variadic, behind its name if there is one. -/
theorem paramType_reads (hp : Serves p n) {t : TypeExpr} (h : IsParamOf (IsRead erased) t)
    (hn : tokenCount (typeLexemes erased t) ≤ n) (name : Option String) (s : Scanner) {u : Token}
    (hu : u.kind.endsType = true) (rest : List Token) :
    (do if ← eat .ellipsis then return (name, .ellipsis (← p))
        else return (name, ← p) : Parser ParamEntry)
      (s.tokens (typeLexemes erased t) ++ u :: rest) = .ok ((name, t), u :: rest) := by
  cases h with
  | type h =>
    obtain ⟨k, text, ls, hl, hk⟩ := h.first
    have hr := hp h.2 hn s hu rest
    rw [hl] at hr ⊢
    have hke : k ≠ .ellipsis := by
      rintro rfl
      exact absurd hk (by decide)
    simp only [Scanner.tokens_token, List.cons_append] at hr ⊢
    simp [eat, hke, hr]
  | variadic h =>
    rw [typeLexemes, tokenCount_token] at hn
    have hr := hp h.2 (by omega) (s.step (.token .ellipsis ['.', '.', '.'])) hu rest
    rw [typeLexemes]
    simp [eat, hr]

theorem paramEntry_reads (hp : Serves p n) {entry : ParamEntry} (h : EntryReads erased n entry)
    (s : Scanner) :
    EntryBefore [.comma, .rparen] (paramEntry p) entry
      (s.tokens (entryLexemes erased entry)) := by
  obtain ⟨name, type⟩ := entry
  obtain ⟨hname, htype, hcount⟩ := h
  have hends : ∀ k ∈ [Kind.comma, .rparen], k.endsType = true := by decide
  have hstart : ∀ k ∈ [Kind.comma, .rparen], k.startsType = false := by decide
  -- Whether there is a name is seen from the first two tokens.
  cases name with
  | none =>
    refine ⟨?_, fun u rest hu => ?_⟩
    · cases htype with
      | type h =>
        obtain ⟨k, text, ls, hl, hk⟩ := h.first
        refine ⟨_, _, by rw [entryLexemes, hl, Scanner.tokens_token], fun hm => ?_⟩
        rw [hstart k hm] at hk
        exact Bool.false_ne_true hk
      | variadic h =>
        exact ⟨_, _, by rw [entryLexemes, typeLexemes, Scanner.tokens_token], by simp⟩
    · have hbegins : beginsNamedParam (s.tokens (typeLexemes erased type) ++ u :: rest) = false := by
        cases htype with
        | type h => exact beginsNamedParam_type h.1 s hu rest
        | variadic h =>
          rw [typeLexemes]
          exact beginsNamedParam_of_ne (by simp) _
      have hr := paramType_reads hp htype hcount none s (hends _ hu) rest
      rw [entryLexemes, paramEntry, bind_apply, remaining_apply]
      simp only [hbegins, Bool.false_eq_true, if_false]
      exact hr
  | some name =>
    have hk : Kind.ofWord name = .ident := hname name rfl
    have hv : (s.token (Kind.ofWord name) name.toList).kind = .ident := hk
    refine ⟨⟨_, _, by rw [entryLexemes, Scanner.tokens_ofWord], by simp [hk]⟩, fun u rest hu => ?_⟩
    have htype' : IsParamOf (IsType Leaf.ReadsBack erased) type := htype.mono fun _ h => h.1
    have hr := paramType_reads hp htype hcount (some name)
      ((s.step (.ofWord name)).step (.layout [' '])) (hends _ hu) rest
    rw [entryLexemes, Scanner.tokens_ofWord, Scanner.tokens_blank, List.cons_append, paramEntry,
      bind_apply, remaining_apply]
    simp only [beginsNamedParam_name htype' hv, if_true, bind_apply, map_apply, ident_of_eq hv,
      Scanner.token_text, String.ofList_toList]
    exact hr

/-! A bare name in a parameter list is read as a type before it is known to be a name. -/

theorem endsType_iff {k : Kind} : k.endsType = true ↔ k ≠ .dot ∧ k.startsType = false := by
  simp [Kind.endsType]

theorem ne_of_endsType {k k' : Kind} (h : k.endsType = true) (hk : k'.endsType = false) :
    k ≠ k' := by
  rintro rfl
  rw [h] at hk
  exact absurd hk (by decide)

theorem isRead_ident {name : String} (h : IsToken .ident name) : IsRead erased (.ident name) := by
  refine ⟨.ident h, fun n s u rest hu hn => ?_⟩
  have hk := (isToken_ident_iff.1 h).2
  rw [typeLexemes] at hn ⊢
  obtain ⟨n, rfl⟩ := Nat.exists_eq_add_of_le' hn
  have hdot : u.kind ≠ .dot := ne_of_endsType hu rfl
  have hlbrack : u.kind ≠ .lbrack := ne_of_endsType hu rfl
  simp [typeAt, typeName, hk, eat_of_ne hdot, eat_of_ne hlbrack]

theorem mem_fieldEntries {type : TypeExpr} {names : List String} {e : ParamEntry}
    (h : e ∈ fieldEntries type names) :
    (∀ s ∈ e.1, s ∈ names) ∧ (e.2 = type ∨ ∃ name ∈ names, e.2 = .ident name) := by
  fun_induction fieldEntries type names with
  | case1 =>
    rw [List.mem_singleton.1 h]
    simp
  | case2 name =>
    rw [List.mem_singleton.1 h]
    simp
  | case3 name next names ih =>
    rcases List.mem_cons.1 h with rfl | h
    · simp
    · obtain ⟨hname, htype⟩ := ih h
      refine ⟨fun s hs => List.mem_cons_of_mem _ (hname s hs), ?_⟩
      rcases htype with htype | ⟨m, hm, htype⟩
      · exact Or.inl htype
      · exact Or.inr ⟨m, List.mem_cons_of_mem _ hm, htype⟩

theorem commaBlank_tokens (s : Scanner) :
    ∃ t, s.tokens [.token .comma [','], .layout [' ']] = [t] ∧ t.kind = .comma :=
  ⟨_, by simp; rfl, rfl⟩

theorem semiBlank_tokens (s : Scanner) :
    ∃ t, s.tokens [.token .semi [';'], .layout [' ']] = [t] ∧ t.kind = .semi :=
  ⟨_, by simp; rfl, rfl⟩

theorem bar_tokens (s : Scanner) :
    ∃ t, s.tokens [.layout [' '], .token .pipe ['|'], .layout [' ']] = [t] ∧ t.kind = .pipe :=
  ⟨_, by simp; rfl, rfl⟩

theorem tokenCount_entry (e : ParamEntry) :
    tokenCount (typeLexemes erased e.2) ≤ tokenCount (entryLexemes erased e) := by
  obtain ⟨name, type⟩ := e
  cases name with
  | none => exact Nat.le_refl _
  | some name => simp [entryLexemes]

/-- **A parameter list is read back.** -/
theorem params_reads (hp : Serves p n) {fs : List FieldGroup} (hu : Uniform fs) (hn : NamesOk Leaf.ReadsBack fs)
    (h : ∀ f ∈ fs, IsParamOf (IsRead erased) f.type)
    (hcount : tokenCount (List.intercalate [.token .comma [','], .layout [' ']]
      (fieldsLexemes erased fs)) ≤ n) (s : Scanner) {o c : Token} (ho : o.kind = .lparen)
    (hc : c.kind = .rparen) (rest : List Token) :
    params p (o :: (s.tokens (List.intercalate [.token .comma [','], .layout [' ']]
      (fieldsLexemes erased fs)) ++ c :: rest)) = .ok (fs, rest) := by
  rw [fieldsLexemes_entries] at hcount ⊢
  have hentry : ∀ e ∈ fs.flatMap fun f => fieldEntries f.type f.names, EntryReads erased n e := by
    intro e he
    have hmem := List.mem_map_of_mem (f := entryLexemes erased) he
    have hle := Nat.le_trans (tokenCount_le_intercalate hmem) hcount
    obtain ⟨f, hf, he⟩ := List.mem_flatMap.1 he
    obtain ⟨hname, htype⟩ := mem_fieldEntries he
    refine ⟨fun s hs => ?_, ?_, ?_⟩
    · exact (isToken_ident_iff.1 (hn f hf s (hname s hs))).2
    · rcases htype with htype | ⟨m, hm, htype⟩
      · rw [htype]
        exact h f hf
      · rw [htype]
        exact .type (isRead_ident (hn f hf m hm))
    · exact Nat.le_trans (tokenCount_entry e) hle
  have hitems := (items_intercalate commaBlank_tokens s _).mono fun e he ts hts => by
    obtain ⟨s, rfl⟩ := hts
    exact paramEntry_reads hp (hentry e he) s
  have hlist := commaList_items hitems (by decide) "',' or ')'" hc rest
  simp [params, expect_of_eq ho, hlist, groupParams_fields hu]

/-! ## Signatures -/

/-- No type begins with a parenthesis. -/
theorem IsType.first_ne_lparen {t : TypeExpr} (h : IsType Leaf.ReadsBack erased t) {k : Kind}
    {text : List Char} {ls : List Lexeme} (hl : typeLexemes erased t = .token k text :: ls) :
    k ≠ .lparen := by
  have hword : ∀ w : String, Kind.ofWord w ≠ .lparen := by
    intro w he
    have := (Kind.ofWord_not_bracket w).1
    rw [he] at this
    exact absurd this (by decide)
  obtain ⟨l, ms, hm, ho⟩ := typeLexemes_opens h fun s hs => hs
  obtain ⟨rfl, -⟩ := List.cons.inj (hm.symm.trans hl)
  rintro rfl
  generalize hlex : Lexeme.token .lparen text = l at ho
  cases ho with
  | @name s _ | @qualifier s _ | @keyword s _ => exact hword s (Lexeme.token.inj hlex).1.symm
  | star | lbrack | arrow => cases hlex

theorem results_none (type : Parser TypeExpr) {u : Token} (hu : u.kind.endsType = true)
    (rest : List Token) : results type (u :: rest) = .ok (none, u :: rest) := by
  have hlparen : u.kind ≠ .lparen := ne_of_endsType hu rfl
  have hstart := (endsType_iff.1 hu).2
  simp [results, hstart]

theorem results_reads (hp : Serves p n) {fs : List FieldGroup} (hu : Uniform fs)
    (hn : NamesOk Leaf.ReadsBack fs) (h : ∀ f ∈ fs, IsParamOf (IsRead erased) f.type) (hw : Writable erased fs)
    (hcount : tokenCount (resultsLexemes erased (some fs)) ≤ n) (s : Scanner) {u : Token}
    (hends : u.kind.endsType = true) (rest : List Token) :
    results p (s.tokens (resultsLexemes erased (some fs)) ++ u :: rest) =
      .ok (some fs, u :: rest) := by
  -- In parentheses the results are a parameter list.
  have hparens : ∀ s : Scanner, tokenCount (List.intercalate
      [.token .comma [','], .layout [' ']] (fieldsLexemes erased fs)) ≤ n →
      results p (s.tokens (.token .lparen ['('] :: (List.intercalate
        [.token .comma [','], .layout [' ']] (fieldsLexemes erased fs) ++
          [.token .rparen [')']])) ++ u :: rest) = .ok (some fs, u :: rest) := by
    intro s hcount
    simp only [Scanner.tokens_token, Scanner.tokens_append, Scanner.tokens_nil, List.cons_append,
      List.append_assoc, List.nil_append]
    simp only [results, bind_apply, peek_cons, Scanner.token_kind]
    rw [params_reads hp hu hn h hcount _ rfl rfl]
    rfl
  cases fs with
  | nil =>
    rcases hw with rfl | hw
    · have hp := hparens (s.step (.layout [' ']))
      rw [resultsLexemes, if_pos rfl, Scanner.tokens_blank]
      exact hp (Nat.zero_le n)
    · exact absurd rfl hw.1
  | cons f fs =>
    obtain ⟨names, type⟩ := f
    rw [fieldsLexemes] at hparens
    rw [resultsLexemes] at hcount ⊢
    split
    · next hone =>
      -- One result without a name, and no variadic one: no parentheses.
      simp only [Bool.and_eq_true, Bool.not_eq_true', List.isEmpty_iff] at hone
      obtain ⟨⟨rfl, rfl⟩, rfl⟩ := hone
      rw [if_pos (by rfl), tokenCount_layout] at hcount
      have hone := h _ List.mem_cons_self
      simp only [FieldGroup.type_mk] at hone
      cases hone with
      | variadic hv =>
        rcases hw with hw | hw
        · exact absurd hw Bool.false_ne_true
        · exact absurd rfl (hw.2 _)
      | type ht =>
        obtain ⟨k, text, ls, hl, hk⟩ := ht.first
        have hlparen := ht.1.first_ne_lparen hl
        have hr := hp ht.2 hcount (s.step (.layout [' '])) hends rest
        rw [Scanner.tokens_blank]
        rw [hl] at hr ⊢
        rw [Scanner.tokens_token, List.cons_append] at hr ⊢
        simp [results, hk, hr]
    · next hone =>
      rw [if_neg hone] at hcount
      rw [Scanner.tokens_blank]
      exact hparens _ (by simp at hcount; omega)

theorem signature_reads (hp : Serves p n) {sig : Signature}
    (h : IsSignatureOf Leaf.ReadsBack erased (IsRead erased) sig)
    (hcount : tokenCount (signatureLexemes erased sig) ≤ n) (s : Scanner) {u : Token}
    (hends : u.kind.endsType = true) (rest : List Token) :
    signature p (s.tokens (signatureLexemes erased sig) ++ u :: rest) =
      .ok (sig, u :: rest) := by
  cases h with
  | plain hu hn hps =>
    rw [signatureLexemes, resultsLexemes] at hcount ⊢
    simp only [tokenCount_token, tokenCount_append, tokenCount_nil] at hcount
    simp only [Scanner.tokens_token, Scanner.tokens_append, Scanner.tokens_nil, List.cons_append,
      List.append_assoc, List.nil_append]
    rw [signature, bind_apply, params_reads hp hu hn hps (by omega) _ rfl rfl]
    simp [results_none _ hends]
  | @results params results hu hn hps hu' hn' hps' hw =>
    rw [signatureLexemes] at hcount ⊢
    simp only [tokenCount_token, tokenCount_append] at hcount
    simp only [Scanner.tokens_token, Scanner.tokens_append, List.cons_append, List.append_assoc]
    rw [signature, bind_apply, params_reads hp hu hn hps (by omega) _ rfl rfl]
    simp [results_reads hp hu' hn' hps' hw (by omega : tokenCount _ ≤ n) _ hends]

/-! ## Constraints -/

theorem typeTerm_reads (hp : Serves p n) {t : TypeExpr} (h : IsTermOf (IsRead erased) t)
    (hcount : tokenCount (typeLexemes erased t) ≤ n) (s : Scanner) {u : Token}
    (hends : u.kind.endsType = true) (rest : List Token) :
    typeTerm p (s.tokens (typeLexemes erased t) ++ u :: rest) = .ok (t, u :: rest) := by
  cases h with
  | type h =>
    obtain ⟨k, text, ls, hl, hk⟩ := h.first
    have hr := hp h.2 hcount s hends rest
    have htilde : k ≠ .tilde := by
      rintro rfl
      exact absurd hk (by decide)
    rw [hl] at hr ⊢
    rw [Scanner.tokens_token, List.cons_append] at hr ⊢
    simp [typeTerm, htilde, hr]
  | tilde h =>
    rw [typeLexemes, tokenCount_token] at hcount
    have hr := hp h.2 (by omega) (s.step (.token .tilde ['~'])) hends rest
    rw [typeLexemes]
    simp [typeTerm, hr]

theorem typeElem_reads (hp : Serves p n) {t : TypeExpr} (h : IsConstraintOf (IsRead erased) t)
    (hcount : tokenCount (typeLexemes erased t) ≤ n) (s : Scanner) {u : Token}
    (hends : u.kind.endsType = true) (hpipe : u.kind ≠ .pipe) (rest : List Token) :
    typeElem p (s.tokens (typeLexemes erased t) ++ u :: rest) = .ok (t, u :: rest) := by
  have hterm : ∀ {t : TypeExpr}, IsTermOf (IsRead erased) t →
      tokenCount (typeLexemes erased t) ≤ n → ∀ s : Scanner,
      ReadsBefore [.pipe, u.kind] (typeTerm p) t (s.tokens (typeLexemes erased t)) := by
    intro t h hcount s v rest hv
    refine typeTerm_reads hp h hcount s ?_ rest
    simp only [List.mem_cons, List.not_mem_nil, or_false] at hv
    rcases hv with hv | hv
    · rw [hv]
      rfl
    · rw [hv]
      exact hends
  have hstop : Kind.pipe ∉ [u.kind] := by simpa using Ne.symm hpipe
  cases h with
  | term h =>
    have hitems : Items .pipe (ReadsBefore [.pipe, u.kind] (typeTerm p)) [t]
        (s.tokens (typeLexemes erased t)) := .last (hterm h hcount s)
    simp [typeElem, separated_items hstop (List.mem_singleton_self u.kind) rest hitems]
  | @union terms hlen h =>
    rw [typeLexemes, typesLexemes_eq] at hcount ⊢
    have hitems := (items_intercalate bar_tokens s terms).mono fun t ht ts hts => by
      obtain ⟨s, rfl⟩ := hts
      have hmem := List.mem_map_of_mem (f := typeLexemes erased) ht
      exact hterm (h t ht) (Nat.le_trans (tokenCount_le_intercalate hmem) hcount) s
    obtain _ | ⟨a, _ | ⟨b, terms⟩⟩ := terms
    · simp at hlen
    · simp at hlen
    · have hr := separated_items hstop (List.mem_singleton_self u.kind) rest hitems (by simp)
      rw [typeElem, bind_apply, hr]
      rfl

/-! ## Entries of structs and interfaces -/

theorem idents_reads {names : List String} (h : ∀ n ∈ names, IsToken .ident n) (hne : names ≠ [])
    (s : Scanner) {v : Token} (hv : v.kind ≠ .comma) (rest : List Token) :
    idents (s.tokens (namesLexemes names) ++ v :: rest) = .ok (names, v :: rest) := by
  have hstop : Kind.comma ∉ [v.kind] := by simpa using Ne.symm hv
  have hitems := (items_intercalate (g := fun name => [.ofWord name]) commaBlank_tokens s
    names).mono fun name hm ts hts => by
      obtain ⟨s, rfl⟩ := hts
      show ReadsBefore [.comma, v.kind] ident name _
      intro t rest _
      simp [(isToken_ident_iff.1 (h name hm)).2]
  exact separated_items hstop (List.mem_singleton_self v.kind) rest hitems hne

/-- Some names and their type, with some blanks between them. -/
def paddedLexemes (k : Nat) (names : List String) (type : List Lexeme) : List Lexeme :=
  if names.isEmpty then type
  else namesLexemes names ++ (List.replicate k (.layout [' ']) ++ type)

theorem paddedLexemes_one (names : List String) (ls : List Lexeme) :
    paddedLexemes 1 names ls = fieldLexemes names ls := rfl

theorem Closed.padded {ok : Leaf → Prop} {C : List Lexeme → Prop} (hC : Closed ok C) (k : Nat)
    {names : List String} {ls : List Lexeme} (h : C ls) : C (paddedLexemes k names ls) := by
  have hblanks : ∀ k, C (List.replicate k (.layout [' '])) := by
    intro k
    induction k with
    | zero => exact hC.nil
    | succ k ih => exact hC.consBlank ih
  unfold paddedLexemes
  split
  · exact h
  · exact hC.append (hC.names names) (hC.append (hblanks k) h)

theorem tokenCount_padded (k : Nat) (names : List String) (ls : List Lexeme) :
    tokenCount ls ≤ tokenCount (paddedLexemes k names ls) := by
  unfold paddedLexemes
  split
  · exact Nat.le_refl _
  · rw [tokenCount_append, tokenCount_append]
    omega

theorem beginsNamedField_names {name : String} {names : List String}
    (h : Kind.ofWord name = .ident) {t : TypeExpr} (ht : IsType Leaf.ReadsBack erased t) (s : Scanner)
    (k : Nat) (rest : List Token) :
    beginsNamedField (s.tokens (namesLexemes (name :: names) ++
      (List.replicate k (.layout [' ']) ++ typeLexemes erased t)) ++ rest) = true := by
  cases names with
  | nil =>
    rw [show namesLexemes [name] = [.ofWord name] by simp [namesLexemes], List.singleton_append,
      Scanner.tokens_ofWord, Scanner.tokens_blanks, List.cons_append]
    exact beginsNamedField_name ht h _ rest
  | cons next names =>
    have hl : ∃ ls, namesLexemes (name :: next :: names) =
        .ofWord name :: .token .comma [','] :: ls :=
      ⟨_, by rw [namesLexemes, List.map_cons, List.map_cons, List.intercalate_cons_cons]; rfl⟩
    obtain ⟨ls, hl⟩ := hl
    simp [hl, beginsNamedField, h]

/-- Reads what stands behind the type of a field. -/
def fieldEnd (names : List String) (type : TypeExpr) : Parser FieldGroup := do
  match ← peek with
  | some .string | some .rawString => advance
  | _ => pure ()
  return .mk names type

theorem structField_reads {f : FieldGroup} (hn : ∀ n ∈ f.names, IsToken .ident n)
    (h : IsRead erased f.type) {n : Nat} (hcount : tokenCount (typeLexemes erased f.type) ≤ n)
    (s : Scanner) (k : Nat) :
    EntryBefore [.semi, .rbrace] (structField (typeAt n)) f
      (s.tokens (paddedLexemes k f.names (typeLexemes erased f.type))) := by
  obtain ⟨names, type⟩ := f
  simp only [FieldGroup.names_mk, FieldGroup.type_mk] at hn h hcount ⊢
  obtain ⟨kind, text, ls, hl, hk⟩ := h.first
  have hends : ∀ k ∈ [Kind.semi, .rbrace], k.endsType = true := by decide
  have hnot : ∀ k ∈ [Kind.semi, .rbrace], k.startsType = false := by decide
  -- What stands behind the type is no tag.
  have htag : ∀ {u : Token} {rest : List Token}, u.kind ∈ [Kind.semi, .rbrace] →
      fieldEnd names type (u :: rest) = .ok (.mk names type, u :: rest) := by
    intro u rest hu
    simp only [List.mem_cons, List.not_mem_nil, or_false] at hu
    rcases hu with hu | hu <;> simp [fieldEnd, hu]
  cases names with
  | nil =>
    have hls : paddedLexemes k [] (typeLexemes erased type) = typeLexemes erased type := rfl
    rw [hls]
    refine ⟨⟨_, _, by rw [hl, Scanner.tokens_token], fun hm => ?_⟩, fun u rest hu => ?_⟩
    · rw [Scanner.token_kind] at hm
      rw [hnot kind hm] at hk
      exact Bool.false_ne_true hk
    · have hr := h.2 n s u rest (hends _ hu) hcount
      rw [structField, bind_apply, remaining_apply]
      simp only [beginsNamedField_type h.1 s hu rest, Bool.false_eq_true, if_false, bind_apply,
        pure_apply, hr]
      exact htag hu
  | cons name names =>
    have hls : paddedLexemes k (name :: names) (typeLexemes erased type) =
        namesLexemes (name :: names) ++
          (List.replicate k (.layout [' ']) ++ typeLexemes erased type) := rfl
    have hname := (isToken_ident_iff.1 (hn name List.mem_cons_self)).2
    have hcomma : kind ≠ .comma := by
      rintro rfl
      exact absurd hk (by decide)
    rw [hls]
    refine ⟨?_, fun u rest hu => ?_⟩
    · cases names with
      | nil => exact ⟨s.token (Kind.ofWord name) name.toList, _, rfl, by simp [hname]⟩
      | cons next names => exact ⟨s.token (Kind.ofWord name) name.toList, _, rfl, by simp [hname]⟩
    · have hr := h.2 n ((s.after (namesLexemes (name :: names))).after
        (List.replicate k (.layout [' ']))) u rest (hends _ hu) hcount
      rw [structField, bind_apply, remaining_apply]
      simp only [beginsNamedField_names hname h.1, if_true]
      rw [Scanner.tokens_append, Scanner.tokens_blanks, List.append_assoc]
      rw [hl, Scanner.tokens_token, List.cons_append] at hr ⊢
      rw [bind_apply, idents_reads hn (by simp) s hcomma]
      simp only [bind_apply, hr]
      exact htag hu

theorem IsTermOf.first {t : TypeExpr} (h : IsTermOf (IsRead erased) t) :
    ∃ k text ls, typeLexemes erased t = .token k text :: ls ∧
      (k.startsType = true ∨ k = .tilde) := by
  cases h with
  | type h =>
    obtain ⟨k, text, ls, hl, hk⟩ := h.first
    exact ⟨k, text, ls, hl, Or.inl hk⟩
  | tilde h => exact ⟨_, _, _, by rw [typeLexemes], Or.inr rfl⟩

theorem beginsMethod_term {t : TypeExpr} (h : IsTermOf (IsRead erased) t) (s : Scanner)
    {u : Token} (hu : u.kind ≠ .lparen) (rest : List Token) :
    beginsMethod (s.tokens (typeLexemes erased t) ++ u :: rest) = false := by
  cases h with
  | type h => exact beginsMethod_type h.1 s hu rest
  | tilde h =>
    rw [typeLexemes]
    simp [beginsMethod]

/-- A constraint is its first term, or goes on behind it with a bar. -/
theorem IsConstraintOf.split {t : TypeExpr} (h : IsConstraintOf (IsRead erased) t) :
    ∃ first more, IsTermOf (IsRead erased) first ∧
      typeLexemes erased t = typeLexemes erased first ++ more ∧
      (more = [] ∨ ∃ ls, more = .layout [' '] :: .token .pipe ['|'] :: ls) := by
  cases h with
  | term h => exact ⟨t, [], h, by simp, Or.inl rfl⟩
  | @union terms hlen h =>
    obtain _ | ⟨a, _ | ⟨b, terms⟩⟩ := terms
    · simp at hlen
    · simp at hlen
    have hl : typeLexemes erased (.union (a :: b :: terms)) = typeLexemes erased a ++
        .layout [' '] :: .token .pipe ['|'] :: .layout [' '] ::
          List.intercalate [.layout [' '], .token .pipe ['|'], .layout [' ']]
            ((b :: terms).map (typeLexemes erased)) := by
      rw [typeLexemes, typesLexemes_eq, List.map_cons, List.map_cons,
        List.intercalate_cons_cons, List.append_assoc]
      rfl
    exact ⟨a, _, h a List.mem_cons_self, hl, Or.inr ⟨_, rfl⟩⟩

theorem beginsMethod_constraint {t : TypeExpr} (h : IsConstraintOf (IsRead erased) t) (s : Scanner)
    {u : Token} (hu : u.kind ≠ .lparen) (rest : List Token) :
    beginsMethod (s.tokens (typeLexemes erased t) ++ u :: rest) = false := by
  obtain ⟨first, more, hfirst, hl, hmore⟩ := h.split
  rw [hl]
  rcases hmore with rfl | ⟨ls, rfl⟩
  · rw [List.append_nil]
    exact beginsMethod_term hfirst s hu rest
  · rw [Scanner.tokens_append, Scanner.tokens_blank, Scanner.tokens_token, List.append_assoc,
      List.cons_append]
    exact beginsMethod_term hfirst s (by simp) _

theorem interfaceElem_reads {e : InterfaceElem}
    (h : IsElemOf Leaf.ReadsBack erased (IsRead erased) e) {n : Nat}
    (hcount : tokenCount (elemLexemes erased e) ≤ n) (s : Scanner) :
    EntryBefore [.semi, .rbrace] (interfaceElem (typeAt n)) e
      (s.tokens (elemLexemes erased e)) := by
  have hends : ∀ k ∈ [Kind.semi, .rbrace], k.endsType = true ∧ k ≠ .pipe ∧ k ≠ .lparen := by
    decide
  have hnot : ∀ k ∈ [Kind.semi, .rbrace], k.startsType = false ∧ k ≠ .tilde := by decide
  -- A method is a name with a parenthesis behind it, and no embedded type begins so.
  cases h with
  | @method name signature hn hs =>
    have hk := (isToken_ident_iff.1 hn).2
    refine ⟨⟨_, _, rfl, by simp [hk]⟩, fun u rest hu => ?_⟩
    rw [elemLexemes, tokenCount_ofWord] at hcount
    have hr := signature_reads (serves_typeAt n) hs (by omega : _ ≤ n) (s.step (.ofWord name)) (hends _ hu).1 rest
    rw [elemLexemes, Scanner.tokens_ofWord, List.cons_append, interfaceElem, bind_apply,
      remaining_apply]
    have hbegins : beginsMethod (s.token (Kind.ofWord name) name.toList ::
        ((s.step (.ofWord name)).tokens (signatureLexemes erased signature) ++ u :: rest)) =
        true := by
      obtain ⟨typeParams, params, results⟩ := signature
      simp [beginsMethod, signatureLexemes, hk]
    simp only [hbegins, if_true, bind_apply]
    rw [hk, ident_token]
    simp [hr]
  | @embedded type hc =>
    obtain ⟨first, more, hfirst, hl, -⟩ := hc.split
    obtain ⟨k, text, ls, hk, hstart⟩ := hfirst.first
    rw [elemLexemes] at hcount ⊢
    refine ⟨⟨s.token k text, _, by rw [hl, hk]; rfl, fun hm => ?_⟩, fun u rest hu => ?_⟩
    · rcases hstart with hstart | hstart
      · rw [(hnot k hm).1] at hstart
        exact Bool.false_ne_true hstart
      · exact (hnot k hm).2 hstart
    · have hbegins := beginsMethod_constraint hc s (hends _ hu).2.2 rest
      have hr := typeElem_reads (serves_typeAt n) hc hcount s (hends _ hu).1 (hends _ hu).2.1 rest
      rw [interfaceElem, bind_apply, remaining_apply]
      simp only [hbegins, Bool.false_eq_true, if_false, bind_apply, hr, pure_apply]
  | entry h => exact h.elim

/-! ## Types -/

/-- The arguments of a generic type, behind its name. -/
theorem args_read {args : List TypeExpr} (h : ∀ a ∈ args, IsRead erased a) {n : Nat}
    (hcount : tokenCount (List.intercalate [.token .comma [','], .layout [' ']]
      (typesLexemes erased args)) ≤ n) (s : Scanner) {c : Token} (hc : c.kind = .rbrack)
    (rest : List Token) :
    commaList .rbrack "',' or ']'" (typeAt n) (s.tokens (List.intercalate
      [.token .comma [','], .layout [' ']] (typesLexemes erased args)) ++ c :: rest) =
      .ok (args, rest) := by
  rw [typesLexemes_eq] at hcount ⊢
  have hends : ∀ k ∈ [Kind.comma, .rbrack], k.endsType = true := by decide
  have hnot : ∀ k ∈ [Kind.comma, .rbrack], k.startsType = false := by decide
  have hitems := (items_intercalate (g := typeLexemes erased) commaBlank_tokens s
    args).mono fun a ha ts hts => by
    obtain ⟨s, rfl⟩ := hts
    show EntryBefore [.comma, .rbrack] (typeAt n) a _
    obtain ⟨k, text, ls, hl, hk⟩ := (h a ha).first
    have hmem := List.mem_map_of_mem (f := typeLexemes erased) ha
    have hle := Nat.le_trans (tokenCount_le_intercalate hmem) hcount
    refine ⟨⟨s.token k text, _, by rw [hl]; rfl, fun hm => ?_⟩, fun u rest hu => ?_⟩
    · rw [hnot k hm] at hk
      exact Bool.false_ne_true hk
    · exact (h a ha).2 n s u rest (hends _ hu) hle
  exact commaList_items hitems (by decide) "',' or ']'" hc rest

theorem structType_reads {fs : List FieldGroup} (hn : NamesOk Leaf.ReadsBack fs)
    (h : ∀ f ∈ fs, IsRead erased f.type) {n : Nat}
    (hcount : tokenCount (typeLexemes erased (.struct fs)) ≤ n + 1) (s : Scanner)
    (rest : List Token) :
    structType (typeAt n) (s.tokens (typeLexemes erased (.struct fs)) ++ rest) =
      .ok (.struct fs, rest) := by
  -- Between the braces stand the fields, of which there may be none.
  have hlist : ∀ (s : Scanner) (c : Token), c.kind = .rbrace → tokenCount (List.intercalate
      [.token .semi [';'], .layout [' ']] (fieldsLexemes erased fs)) ≤ n →
      semicolonList .rbrace "';' or '\x7d'" (structField (typeAt n)) (s.tokens (List.intercalate
        [.token .semi [';'], .layout [' ']] (fieldsLexemes erased fs)) ++ c :: rest) =
        .ok (fs, rest) := by
    intro s c hc hcount
    rw [fieldsLexemes_eq] at hcount ⊢
    have hitems := (items_intercalate semiBlank_tokens s fs).mono fun f hf ts hts => by
      obtain ⟨s, rfl⟩ := hts
      have hmem := List.mem_map_of_mem
        (f := fun f : FieldGroup => fieldLexemes f.names (typeLexemes erased f.type)) hf
      have hle := Nat.le_trans (tokenCount_le_intercalate hmem) hcount
      exact structField_reads (hn f hf) (h f hf) (Nat.le_trans (tokenCount_padded 1 _ _) hle) s 1
    exact semicolonList_items hitems (by decide) _ (fun _ h => absurd h List.not_mem_nil) hc rest
  cases fs with
  | nil =>
    have hr := hlist ((s.step (.ofWord "struct")).step (.token .lbrace ['{']))
      (((s.step (.ofWord "struct")).step (.token .lbrace ['{'])).token .rbrace ['}']) rfl
      (Nat.zero_le n)
    rw [fieldsLexemes, List.intercalate_nil, Scanner.tokens_nil, List.nil_append] at hr
    rw [typeLexemes]
    simp [structType, hr]
  | cons f fs =>
    rw [typeLexemes] at hcount ⊢
    simp only [tokenCount_ofWord, tokenCount_token, tokenCount_layout, tokenCount_append,
      tokenCount_nil] at hcount
    simp only [Scanner.tokens_ofWord, Scanner.tokens_token, Scanner.tokens_blank,
      Scanner.tokens_append, Scanner.tokens_nil, List.cons_append, List.append_assoc,
      List.nil_append, Kind.ofWord_struct]
    simp only [structType, bind_apply, expect_token]
    rw [hlist _ _ (by rfl) (by omega)]
    rfl

theorem interfaceType_reads {es : List InterfaceElem}
    (h : ∀ e ∈ es, IsElemOf Leaf.ReadsBack erased (IsRead erased) e) {n : Nat}
    (hcount : tokenCount (typeLexemes erased (.interface es)) ≤ n + 1) (s : Scanner)
    (rest : List Token) :
    interfaceType (typeAt n) (s.tokens (typeLexemes erased (.interface es)) ++ rest) =
      .ok (.interface es, rest) := by
  have hlist : ∀ (s : Scanner) (c : Token), c.kind = .rbrace → tokenCount (List.intercalate
      [.token .semi [';'], .layout [' ']] (elemsLexemes erased es)) ≤ n →
      semicolonList .rbrace "';' or '\x7d'" (interfaceElem (typeAt n)) (s.tokens (List.intercalate
        [.token .semi [';'], .layout [' ']] (elemsLexemes erased es)) ++ c :: rest) =
        .ok (es, rest) := by
    intro s c hc hcount
    rw [elemsLexemes_eq] at hcount ⊢
    have hitems := (items_intercalate semiBlank_tokens s es).mono fun e he ts hts => by
      obtain ⟨s, rfl⟩ := hts
      have hmem := List.mem_map_of_mem (f := elemLexemes erased) he
      exact interfaceElem_reads (h e he)
        (Nat.le_trans (tokenCount_le_intercalate hmem) hcount) s
    exact semicolonList_items hitems (by decide) _ (fun _ h => absurd h List.not_mem_nil) hc rest
  -- Without entries the braces stand side by side, otherwise there are blanks inside of them.
  cases es with
  | nil =>
    have hr := hlist ((s.step (.ofWord "interface")).step (.token .lbrace ['{']))
      (((s.step (.ofWord "interface")).step (.token .lbrace ['{'])).token .rbrace ['}']) rfl
      (Nat.zero_le n)
    rw [elemsLexemes, List.intercalate_nil, Scanner.tokens_nil, List.nil_append] at hr
    rw [typeLexemes]
    simp [interfaceType, hr]
  | cons e es =>
    rw [typeLexemes] at hcount ⊢
    simp only [tokenCount_ofWord, tokenCount_token, tokenCount_layout, tokenCount_append,
      tokenCount_nil] at hcount
    simp only [Scanner.tokens_ofWord, Scanner.tokens_token, Scanner.tokens_blank,
      Scanner.tokens_append, Scanner.tokens_nil, List.cons_append, List.append_assoc,
      List.nil_append, Kind.ofWord_interface]
    simp only [interfaceType, bind_apply, expect_token]
    rw [hlist _ _ (by rfl) (by omega)]
    rfl

theorem arrayType_reads {len : String} {elem : TypeExpr} (hl : IsLength len)
    (h : ReadsType erased elem) {n : Nat} (hcount : tokenCount (typeLexemes erased elem) ≤ n)
    (s : Scanner) {u : Token} (hu : u.kind.endsType = true) (rest : List Token) :
    arrayType (typeAt n) (s.tokens (typeLexemes erased (.array (some (.literal len)) elem)) ++
      u :: rest) = .ok (.array (some (.literal len)) elem, u :: rest) := by
  rw [typeLexemes, lengthLexemes, typeLexemes, Scanner.tokens_token, Scanner.tokens_append,
    Scanner.tokens_token _ .rbrack, List.cons_append, List.append_assoc, List.cons_append]
  generalize hs : s.step (.token .lbrack ['[']) = s'
  have hgap : s'.gap = [] := by rw [← hs]; rfl
  have hpending : s'.pending = false := by rw [← hs]; rfl
  obtain ⟨v, vs, hv, hcloses⟩ := Scanner.first_tokens hpending hl.balanced hl.written
  have hr : v.kind ≠ .rbrack := by
    intro hk
    rw [hk] at hcloses
    cases hcloses
  generalize hclose : (s'.after (lexemes len.toList)).token .rbrack [']'] = close
  have hread := h n ((s'.after (lexemes len.toList)).step (.token .rbrack [']'])) u rest hu hcount
  generalize hmore : ((s'.after (lexemes len.toList)).step (.token .rbrack [']'])).tokens
    (typeLexemes erased elem) ++ u :: rest = more at hread ⊢
  have hsplit := splitClose?_balanced s' hl.balanced (by rw [← hclose]; rfl : close.kind.opens = _)
    (by rw [← hclose]; rfl) more
  have hinner : Token.inner (s'.tokens (lexemes len.toList)) close = len := by
    rw [s'.inner_tokens hgap hl.lexes.2 (by rw [← hclose]; rfl), spellLexemes_lexemes, String.ofList_toList]
  have heat : eat .rbrack (s'.tokens (lexemes len.toList) ++ close :: more) =
      .ok (false, s'.tokens (lexemes len.toList) ++ close :: more) := by
    rw [hv]
    exact eat_of_ne hr _
  simp only [arrayType, bind_apply, expect_token, heat, Bool.false_eq_true, if_false, pure_apply,
    remaining_apply, hsplit, continueAt_apply, hread, hinner, hl.trimmed, String.ofList_toList]

/-- **The parser reads the lexemes of a type.** -/
theorem IsType.reads {t : TypeExpr} (h : IsType Leaf.ReadsBack erased t) : ReadsType erased t := by
  have hname : ∀ {s : String}, Leaf.ReadsBack (.name s) → Kind.ofWord s = .ident :=
    fun hs => (isToken_ident_iff.1 hs).2
  induction h with
  | ident hn => exact (isRead_ident hn).2
  | @qualified package name hp hn =>
    intro n s u rest hu hcount
    rw [typeLexemes] at hcount ⊢
    obtain ⟨n, rfl⟩ := Nat.exists_eq_add_one.2 (Nat.lt_of_lt_of_le (by simp) hcount)
    have hlbrack : u.kind ≠ .lbrack := ne_of_endsType hu rfl
    simp [typeAt, typeName, hname hp, hname hn, eat_of_ne hlbrack]
  | pointer _ ih =>
    intro n s u rest hu hcount
    rw [typeLexemes] at hcount ⊢
    obtain ⟨n, rfl⟩ := Nat.exists_eq_add_one.2 (Nat.lt_of_lt_of_le (by simp) hcount)
    have hr := ih n (s.step (.token .star ['*'])) u rest hu (by simp at hcount; omega)
    simp [typeAt, hr]
  | slice _ ih =>
    intro n s u rest hu hcount
    rw [typeLexemes, lengthLexemes, List.nil_append] at hcount ⊢
    obtain ⟨n, rfl⟩ := Nat.exists_eq_add_one.2 (Nat.lt_of_lt_of_le (by simp) hcount)
    have hr := ih n ((s.step (.token .lbrack ['['])).step (.token .rbrack [']'])) u rest hu
      (by simp at hcount; omega)
    simp [typeAt, arrayType, hr]
  | @array len elem hl _ ih =>
    intro n s u rest hu hcount
    rw [typeLexemes, lengthLexemes, typeLexemes] at hcount
    obtain ⟨n, rfl⟩ := Nat.exists_eq_add_one.2 (Nat.lt_of_lt_of_le (by simp) hcount)
    have hr := arrayType_reads hl ih (by simp at hcount; omega : _ ≤ n) s hu rest
    rw [typeLexemes, Scanner.tokens_token, List.cons_append] at hr ⊢
    rw [typeAt, bind_apply, peek_cons]
    exact hr
  | func _ hs =>
    intro n s u rest hu hcount
    rw [typeLexemes] at hcount ⊢
    obtain ⟨n, rfl⟩ := Nat.exists_eq_add_one.2 (Nat.lt_of_lt_of_le (by simp) hcount)
    have hr := signature_reads (serves_typeAt n) hs (by simp at hcount; omega : _ ≤ n) (s.step (.ofWord "func")) hu
      rest
    simp [typeAt, hr]
  | @map key value _ _ ihk ihv =>
    intro n s u rest hu hcount
    rw [typeLexemes] at hcount ⊢
    obtain ⟨n, rfl⟩ := Nat.exists_eq_add_one.2 (Nat.lt_of_lt_of_le (by simp) hcount)
    simp only [tokenCount_ofWord, tokenCount_token, tokenCount_append] at hcount
    simp only [Scanner.tokens_ofWord, Scanner.tokens_token, Scanner.tokens_append,
      List.cons_append, List.append_assoc]
    generalize (s.step (.ofWord "map")).step (.token .lbrack ['[']) = s'
    have hk := fun (v : Scanner) text more => ihk n s' (v.token .rbrack text) more rfl (by omega)
    have hv := ihv n ((s'.after (typeLexemes erased key)).step (.token .rbrack [']'])) u rest hu
      (by omega)
    simp [typeAt, hk, hv]
  | @chan dir elem helem ih =>
    intro n s u rest hu hcount
    cases dir with
    | send =>
      rw [typeLexemes] at hcount ⊢
      obtain ⟨n, rfl⟩ := Nat.exists_eq_add_one.2 (Nat.lt_of_lt_of_le (by simp) hcount)
      have hr := fun s => ih n s u rest hu (by simp at hcount; omega)
      simp [typeAt, hr]
    | recv =>
      rw [typeLexemes] at hcount ⊢
      obtain ⟨n, rfl⟩ := Nat.exists_eq_add_one.2 (Nat.lt_of_lt_of_le (by simp) hcount)
      have hr := fun s => ih n s u rest hu (by simp at hcount; omega)
      simp [typeAt, hr]
    | both =>
      rw [typeLexemes] at hcount ⊢
      split
      · next hrecv =>
        -- The parentheses are no part of the tree.
        rw [if_pos hrecv] at hcount
        obtain ⟨n, rfl⟩ := Nat.exists_eq_add_one.2 (Nat.lt_of_lt_of_le (by simp) hcount)
        simp only [tokenCount_ofWord, tokenCount_token, tokenCount_layout, tokenCount_append,
          tokenCount_nil] at hcount
        obtain ⟨n, rfl⟩ := Nat.exists_eq_add_one.2 (by omega : 0 < n)
        have hr := fun s (v : Scanner) text more =>
          ih n s (v.token .rparen text) more rfl (by omega)
        simp [typeAt, Scanner.tokens_append, hr]
      · next hrecv =>
        rw [if_neg hrecv] at hcount
        obtain ⟨n, rfl⟩ := Nat.exists_eq_add_one.2 (Nat.lt_of_lt_of_le (by simp) hcount)
        simp only [tokenCount_ofWord, tokenCount_layout] at hcount
        obtain ⟨k, text, ls, hl, -⟩ := helem.first
        have harrow := helem.first_ne_arrow (by simpa using hrecv) hl
        have hr := ih n ((s.step (.ofWord "chan")).step (.layout [' '])) u rest hu (by omega)
        rw [hl, Scanner.tokens_token, List.cons_append] at hr
        simp [typeAt, hl, harrow, hr]
  | @struct fields _ hn ih =>
    intro n s u rest hu hcount
    obtain ⟨ls, hl⟩ : ∃ ls, typeLexemes erased (.struct fields) = .ofWord "struct" :: ls := by
      cases fields <;> exact ⟨_, by rw [typeLexemes]⟩
    obtain ⟨n, rfl⟩ := Nat.exists_eq_add_one.2
      (Nat.lt_of_lt_of_le (by rw [hl]; simp) hcount)
    have hr := structType_reads hn (fun f hf => ih f hf) hcount s (u :: rest)
    rw [hl, Scanner.tokens_ofWord, List.cons_append] at hr ⊢
    rw [typeAt, bind_apply, peek_cons]
    simpa using hr
  | @interface elems _ ih =>
    intro n s u rest hu hcount
    obtain ⟨ls, hl⟩ : ∃ ls, typeLexemes erased (.interface elems) = .ofWord "interface" :: ls := by
      cases elems <;> exact ⟨_, by rw [typeLexemes]⟩
    obtain ⟨n, rfl⟩ := Nat.exists_eq_add_one.2
      (Nat.lt_of_lt_of_le (by rw [hl]; simp) hcount)
    have hr := interfaceType_reads ih hcount s (u :: rest)
    rw [hl, Scanner.tokens_ofWord, List.cons_append] at hr ⊢
    rw [typeAt, bind_apply, peek_cons]
    simpa using hr
  | @generic name args _ hn _ ih =>
    intro n s u rest hu hcount
    rw [typeLexemes, typeLexemes] at hcount ⊢
    obtain ⟨n, rfl⟩ := Nat.exists_eq_add_one.2 (Nat.lt_of_lt_of_le (by simp) hcount)
    simp only [List.singleton_append, tokenCount_ofWord, tokenCount_token, tokenCount_append,
      tokenCount_nil] at hcount
    have hr := fun s (c : Scanner) text =>
      args_read ih (by omega : _ ≤ n) s (rfl : (c.token .rbrack text).kind = _) (u :: rest)
    simp [typeAt, typeName, hname hn, Scanner.tokens_append, hr]
  | @qualifiedGeneric package name args _ hp hn _ ih =>
    intro n s u rest hu hcount
    rw [typeLexemes, typeLexemes] at hcount ⊢
    obtain ⟨n, rfl⟩ := Nat.exists_eq_add_one.2 (Nat.lt_of_lt_of_le (by simp) hcount)
    simp only [List.cons_append, List.nil_append, tokenCount_ofWord, tokenCount_token,
      tokenCount_append, tokenCount_nil] at hcount
    have hr := fun s (c : Scanner) text =>
      args_read ih (by omega : _ ≤ n) s (rfl : (c.token .rbrack text).kind = _) (u :: rest)
    simp [typeAt, typeName, hname hp, hname hn, Scanner.tokens_append, hr]
  | unsupported hu => exact hu.elim

theorem IsType.isRead {t : TypeExpr} (h : IsType Leaf.ReadsBack erased t) : IsRead erased t :=
  ⟨h, h.reads⟩

/-! ## Types that span lines -/

/-- A struct or an interface with an entry on each line, where `tabs` stand before the line of the
closing brace. -/
def blockLexemes {α : Type} (tabs : List Lexeme) (keyword : String) (g : α → List Lexeme)
    (xs : List α) : List Lexeme :=
  .ofWord keyword :: .layout [' '] :: .token .lbrace ['{'] :: .layout ['\n'] ::
    (linesLexemes g (xs.map fun x => (tabs ++ [.layout ['\t']], x)) ++
      (tabs ++ [.token .rbrace ['}']]))

section Block

variable {α : Type} {tabs : List Lexeme} {g : α → List Lexeme} {xs : List α}

/-- Between two brackets stand the entries, each with a semicolon behind it. -/
theorem enclosed_tokens {op cl : Kind} (hop : op.endsStatement = false) (t t' : List Char)
    {xs : List (List Lexeme × α)} (hpad : ∀ x ∈ xs, ∀ l ∈ x.1, l.isLayout = true)
    (htabs : ∀ l ∈ tabs, l.isLayout = true) (hends : ∀ x ∈ xs, EndsLine (g x.2)) (s : Scanner) :
    ∃ o c ts tail, s.tokens (Lexeme.token op t :: .layout ['\n'] ::
        (linesLexemes g xs ++ (tabs ++ [Lexeme.token cl t']))) = o :: (ts ++ (tail ++ [c])) ∧
      o.kind = op ∧ c.kind = cl ∧ (∀ u ∈ tail, u.kind = .semi) ∧
      Items .semi (fun x ts => ∃ s : Scanner, ts = s.tokens (g x)) (xs.map Prod.snd) ts := by
  generalize hs' : s.step (.token op t) = s'
  have hp : s'.pending = false := by
    rw [← hs']
    exact hop
  have hnl : s'.emit (.layout ['\n']) = [] := by simp [Scanner.emit, hp]
  obtain ⟨hpending, ts, tail, hts, htail, hitems⟩ :=
    items_lines (g := g) s'.pending_lineEnd hpad hends
  rw [Scanner.tokens_token, hs', Scanner.tokens, hnl, List.nil_append, Scanner.tokens_append, hts,
    (Scanner.tokens_indent hpending htabs _).1, Scanner.tokens_token, Scanner.tokens_nil,
    List.append_assoc]
  exact ⟨_, _, ts, tail, rfl, rfl, rfl, htail, hitems⟩

theorem block_tokens (htabs : ∀ l ∈ tabs, l.isLayout = true) (hends : ∀ x ∈ xs, EndsLine (g x))
    (keyword : String) (s : Scanner) :
    ∃ (v o c : Token) (ts tail : List Token),
      s.tokens (blockLexemes tabs keyword g xs) = v :: o :: (ts ++ (tail ++ [c])) ∧
      v.kind = Kind.ofWord keyword ∧ o.kind = .lbrace ∧ c.kind = .rbrace ∧
      (∀ u ∈ tail, u.kind = .semi) ∧
      Items .semi (fun x ts => ∃ s : Scanner, ts = s.tokens (g x)) xs ts := by
  have hpad : ∀ x ∈ xs.map fun x => (tabs ++ [.layout ['\t']], x), ∀ l ∈ x.1,
      l.isLayout = true := by
    intro x hx l hl
    obtain ⟨y, -, rfl⟩ := List.mem_map.1 hx
    rcases List.mem_append.1 hl with hl | hl
    · exact htabs l hl
    · rw [List.mem_singleton.1 hl]
      rfl
  obtain ⟨o, c, ts, tail, hts, ho, hc, htail, hitems⟩ := enclosed_tokens (g := g)
    (by decide : Kind.lbrace.endsStatement = false) ['{'] ['}'] hpad htabs (by simpa using hends)
    ((s.step (.ofWord keyword)).step (.layout [' ']))
  have hmap : (xs.map fun x => (tabs ++ [Lexeme.layout ['\t']], x)).map Prod.snd = xs := by
    rw [List.map_map]
    exact List.map_id xs
  rw [hmap] at hitems
  rw [blockLexemes, Scanner.tokens_ofWord, Scanner.tokens_blank, hts]
  exact ⟨_, o, c, ts, tail, rfl, rfl, ho, hc, htail, hitems⟩

theorem tokenCount_le_lines {x : α} {xs : List (List Lexeme × α)} {pad : List Lexeme}
    (h : (pad, x) ∈ xs) : tokenCount (g x) ≤ tokenCount (linesLexemes g xs) := by
  induction xs with
  | nil => exact absurd h List.not_mem_nil
  | cons y xs ih =>
    obtain ⟨pad', y⟩ := y
    rw [linesLexemes_cons, tokenCount_append, tokenCount_append, tokenCount_layout]
    rcases List.mem_cons.1 h with h | h
    · rw [(Prod.mk.inj h).2]
      omega
    · have := ih h
      omega

theorem tokenCount_of_block {x : α} (h : x ∈ xs) {keyword : String} {n : Nat}
    (hcount : tokenCount (blockLexemes tabs keyword g xs) ≤ n + 1) : tokenCount (g x) ≤ n := by
  have hmem := List.mem_map_of_mem (f := fun x => (tabs ++ [Lexeme.layout ['\t']], x)) h
  have hle := tokenCount_le_lines (g := g) hmem
  rw [blockLexemes, tokenCount_ofWord, tokenCount_layout, tokenCount_token, tokenCount_layout,
    tokenCount_append] at hcount
  omega

theorem tokenCount_block_pos (keyword : String) :
    0 < tokenCount (blockLexemes tabs keyword g xs) := by
  rw [blockLexemes, tokenCount_ofWord]
  omega

end Block

theorem endsLine_padded {names : List String} {ls : List Lexeme} (k : Nat) (h : EndsLine ls) :
    EndsLine (paddedLexemes k names ls) := by
  unfold paddedLexemes
  split
  · exact h
  · exact (h.append _).append _

/-- The lexemes of a field of a struct whose types are aligned. -/
def alignedLexemes (erased : Bool) (x : Nat × FieldGroup) : List Lexeme :=
  paddedLexemes (x.1 + 1) x.2.names (typeLexemes erased x.2.type)

/-- **A struct with a field on each line is read back**, however the types are aligned. -/
theorem structBlock_reads {tabs : List Lexeme} (htabs : ∀ l ∈ tabs, l.isLayout = true)
    {xs : List (Nat × FieldGroup)} (hn : ∀ x ∈ xs, ∀ n ∈ x.2.names, IsToken .ident n)
    (h : ∀ x ∈ xs, IsType Leaf.ReadsBack erased x.2.type) :
    ReadsAs (blockLexemes tabs "struct" (alignedLexemes erased) xs)
      (.struct (xs.map Prod.snd)) := by
  intro n s u rest hu hcount
  obtain ⟨v, o, c, ts, tail, hts, hv, ho, hc, htail, hitems⟩ := block_tokens
    (g := alignedLexemes erased) htabs (fun x hx => endsLine_padded _ (h x hx).endsLine) "struct" s
  rw [Kind.ofWord_struct] at hv
  obtain ⟨n, rfl⟩ := Nat.exists_eq_add_one.2
    (Nat.lt_of_lt_of_le (tokenCount_block_pos _) hcount)
  have hitems := hitems.map (f := Prod.snd) fun x hx ts hts => by
    obtain ⟨s, rfl⟩ := hts
    exact structField_reads (hn x hx) (h x hx).isRead
      (Nat.le_trans (tokenCount_padded _ _ _) (tokenCount_of_block hx hcount)) s (x.1 + 1)
  have hlist := semicolonList_items hitems (by decide) "';' or '\x7d'" htail hc (u :: rest)
  have hall : ts ++ (tail ++ [c]) ++ u :: rest = ts ++ (tail ++ c :: u :: rest) := by simp
  rw [hts, List.cons_append, List.cons_append, hall, typeAt, bind_apply, peek_cons, hv]
  simp only [structType, bind_apply, expect_of_eq hv, expect_of_eq ho, hlist, pure_apply]

/-- **An interface with an entry on each line is read back.** -/
theorem interfaceBlock_reads {tabs : List Lexeme} (htabs : ∀ l ∈ tabs, l.isLayout = true)
    {es : List InterfaceElem}
    (h : ∀ e ∈ es, IsElemOf Leaf.ReadsBack erased (IsType Leaf.ReadsBack erased) e) :
    ReadsAs (blockLexemes tabs "interface" (elemLexemes erased) es) (.interface es) := by
  intro n s u rest hu hcount
  obtain ⟨v, o, c, ts, tail, hts, hv, ho, hc, htail, hitems⟩ := block_tokens
    (g := elemLexemes erased) htabs
    (fun e he => ((h e he).mono fun _ h => h.endsLine).endsLine) "interface" s
  rw [Kind.ofWord_interface] at hv
  obtain ⟨n, rfl⟩ := Nat.exists_eq_add_one.2
    (Nat.lt_of_lt_of_le (tokenCount_block_pos _) hcount)
  have hitems := hitems.mono fun e he ts hts => by
    obtain ⟨s, rfl⟩ := hts
    exact interfaceElem_reads ((h e he).mono fun _ h => h.isRead)
      (tokenCount_of_block he hcount) s
  have hlist := semicolonList_items hitems (by decide) "';' or '\x7d'" htail hc (u :: rest)
  have hall : ts ++ (tail ++ [c]) ++ u :: rest = ts ++ (tail ++ c :: u :: rest) := by simp
  rw [hts, List.cons_append, List.cons_append, hall, typeAt, bind_apply, peek_cons, hv]
  simp only [interfaceType, bind_apply, expect_of_eq hv, expect_of_eq ho, hlist, pure_apply]

end Reading

end Understudy.Source

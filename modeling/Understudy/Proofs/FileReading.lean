import Understudy.Proofs.TypeReading
import Understudy.Source.FileParser

/-!
# Reading files back

What a file is made of, written down as lexemes: the entries of declarations, declarations, and
the text of the whole file with line ends between them.

> **A file whose declarations are read back is read back** (`parse_fileLexemes`).

Both the printed form of a file and the text of a stub are such texts. They differ in how they
break lines and in how they write types, so the lemmas here take the lexemes of a type as they
come: whatever is read as the type (`ReadsAs`) and can end a line (`Line`) can stand in an entry.
-/

set_option autoImplicit false

namespace Understudy.Source

open Understudy.Source.Parser

/-! ## Pieces of a text

A piece is *sound* if it stands before blanks, line ends, commas and closing brackets, and *free* if
it stands before anything, as every piece does that ends with a blank or a bracket. -/

/-- Whether some lexemes without a fault stand before anything. -/
structure Free (ls : List Lexeme) : Prop where
  stand : ∀ rest : List Char, StandBefore ls rest
  good : ∀ l ∈ ls, l.isBad = false

/-- Whether some lexemes without a fault stand before a boundary. -/
structure Sound (ls : List Lexeme) : Prop where
  stand : ∀ {d : Char}, isBoundary d = true → ∀ rest, StandBefore ls (d :: rest)
  good : ∀ l ∈ ls, l.isBad = false

section Pieces

variable {ls ms : List Lexeme}

theorem free_nil : Free [] := ⟨fun _ => trivial, by simp⟩

theorem Free.append (hl : Free ls) (hm : Free ms) : Free (ls ++ ms) where
  stand rest := standBefore_append.2 ⟨hl.stand _, hm.stand rest⟩
  good := List.forall_mem_append.2 ⟨hl.good, hm.good⟩

theorem Free.sound (h : Free ls) : Sound ls := ⟨fun _ _ => h.stand _, h.good⟩

/-- A text that is spelled by lexemes that stand has their tokens. -/
theorem Free.tokenize (h : Free ls) {text : String} (ht : text.toList = spellLexemes ls) :
    tokenize text = .ok (Scanner.start.tokensToEnd ls) := by
  have hlex := lexemes_spell (h.stand [])
  rw [← ht] at hlex
  have hgood : ∀ l ∈ lexemes text.toList, l.isBad = false := by
    rw [hlex]
    exact h.good
  rw [tokenize_eq hgood, hlex]
  rfl

theorem Free.before (hl : Free ls) (hm : Sound ms) : Sound (ls ++ ms) where
  stand hd rest := standBefore_append.2 ⟨hl.stand _, hm.stand hd rest⟩
  good := List.forall_mem_append.2 ⟨hl.good, hm.good⟩

theorem free_of_isFree {l : Lexeme} (h : l.isFree = true) : Free [l] where
  stand rest := ⟨Lexeme.standsBefore_of_isFree h rest, trivial⟩
  good := by
    intro m hm
    rw [List.mem_singleton.1 hm]
    cases l with
    | bad text => exact absurd h (by simp [Lexeme.isFree])
    | layout text => rfl
    | token kind text => rfl

theorem Free.cons {l : Lexeme} (hl : l.isFree = true) (hm : Free ms) : Free (l :: ms) :=
  (free_of_isFree hl).append hm

theorem Sound.cons {l : Lexeme} (hl : l.isFree = true) (hm : Sound ms) : Sound (l :: ms) :=
  (free_of_isFree hl).before hm

/-- A sound piece with a lexeme behind it that begins with a boundary. -/
theorem Sound.free {l : Lexeme} {d : Char} {cs : List Char} (h : Sound ls) (ht : l.text = d :: cs)
    (hd : isBoundary d = true) (hl : l.isFree = true) : Free (ls ++ [l]) where
  stand rest := by
    refine standBefore_append.2 ⟨?_, (free_of_isFree hl).stand rest⟩
    rw [spellLexemes_cons, ht, List.cons_append, List.cons_append]
    exact h.stand hd _
  good := List.forall_mem_append.2 ⟨h.good, (free_of_isFree hl).good⟩

theorem Sound.blank (h : Sound ls) : Free (ls ++ [.layout [' ']]) := h.free rfl (by decide) rfl

/-- Two sound pieces with a blank between them. -/
theorem Sound.beside (hl : Sound ls) (hm : Sound ms) : Sound (ls ++ .layout [' '] :: ms) := by
  have h := hl.blank.before hm
  rwa [List.append_assoc, List.singleton_append] at h

theorem Sound.newline (h : Sound ls) : Free (ls ++ [.layout ['\n']]) := h.free rfl (by decide) rfl

theorem sound_word {w : String} (hw : isWord w = true) : Sound [.ofWord w] where
  stand hd rest := ⟨word_stands hw (endsWord_of_isBoundary hd rest), trivial⟩
  good := List.forall_mem_singleton.2 rfl

/-- An equals sign with a blank behind it. -/
theorem free_assign : Free [.token .assign ['='], .layout [' ']] where
  stand rest := ⟨assign_stands (by simp), Lexeme.standsBefore_of_isFree rfl rest, trivial⟩
  good := by simp [Lexeme.isBad]

theorem sound_commas {lss : List (List Lexeme)} (h : ∀ ls ∈ lss, Sound ls) :
    Sound (List.intercalate [.token .comma [','], .layout [' ']] lss) := by
  refine intercalate_induction (fun _ => free_nil.sound) h fun ls hm ms hms => ?_
  have hcomma : Free (ls ++ [.token .comma [',']]) := (h ls hm).free rfl (by decide) rfl
  have hsep : Free (ls ++ [.token .comma [','], .layout [' ']]) := by
    simpa using hcomma.append (free_of_isFree (l := .layout [' ']) rfl)
  rw [← List.append_assoc]
  exact hsep.before hms

theorem sound_names {names : List String} (h : ∀ n ∈ names, isWord n = true) :
    Sound (namesLexemes names) := by
  refine sound_commas fun ls hm => ?_
  obtain ⟨n, hn, rfl⟩ := List.mem_map.1 hm
  exact sound_word (h n hn)

theorem sound_padded {names : List String} (hn : ∀ n ∈ names, isWord n = true) {k : Nat}
    (h : Sound ls) : Sound (paddedLexemes (k + 1) names ls) := by
  unfold paddedLexemes
  split
  · exact h
  · have hblanks : ∀ k, Free (List.replicate k (.layout [' '])) := by
      intro k
      induction k with
      | zero => exact free_nil
      | succ k ih => exact ih.cons rfl
    have hnames := (sound_names hn).blank.append (hblanks k)
    rw [List.replicate_succ]
    simpa using hnames.before h

theorem free_lines {α : Type} {g : α → List Lexeme} {xs : List (List Lexeme × α)}
    (hpad : ∀ x ∈ xs, Free x.1) (h : ∀ x ∈ xs, Sound (g x.2)) : Free (linesLexemes g xs) := by
  induction xs with
  | nil => exact free_nil
  | cons x xs ih =>
    obtain ⟨pad, x⟩ := x
    obtain ⟨hp, hpad⟩ := List.forall_mem_cons.1 hpad
    obtain ⟨hx, h⟩ := List.forall_mem_cons.1 h
    rw [linesLexemes_cons]
    have hall := (hp.append hx.newline).append (ih hpad h)
    simpa using hall

theorem sound_block {α : Type} {tabs : List Lexeme} (htabs : Free tabs) {keyword : String}
    (hw : isWord keyword = true) {g : α → List Lexeme} {xs : List α}
    (h : ∀ x ∈ xs, Sound (g x)) : Sound (blockLexemes tabs keyword g xs) := by
  have hpad : ∀ x ∈ xs.map fun x => (tabs ++ [Lexeme.layout ['\t']], x), Free x.1 := by
    intro x hx
    obtain ⟨y, -, rfl⟩ := List.mem_map.1 hx
    exact htabs.append (free_of_isFree rfl)
  have hlines := free_lines (g := g) hpad (by simpa using h)
  have hrest := hlines.append (htabs.append (free_of_isFree (l := .token .rbrace ['}']) rfl))
  have hbrace := (hrest.cons (l := .layout ['\n']) rfl).cons (l := .token .lbrace ['{']) rfl
  exact ((sound_word hw).blank.append hbrace).sound

end Pieces

/-! The same for the parts of types. -/

section Types

variable {erased shape : Bool}

theorem Stand.sound {ls : List Lexeme} (hs : Stand ls) (hg : ∀ l ∈ ls, l.isBad = false) :
    Sound ls :=
  ⟨fun hd rest => hs _ (endsWord_of_isBoundary hd rest), hg⟩

theorem IsType.sound {t : TypeExpr} (h : IsType Leaf.Lexes shape t) :
    Sound (typeLexemes erased t) :=
  h.stand.sound h.good

theorem IsConstraintOf.sound {t : TypeExpr} (h : IsConstraintOf (IsType Leaf.Lexes shape) t) :
    Sound (typeLexemes erased t) :=
  (h.mono fun _ h => h.stand).stand.sound (closed_good.constraint (h.mono fun _ h => h.good))

theorem IsElemOf.sound {e : InterfaceElem}
    (h : IsElemOf Leaf.Lexes shape (IsType Leaf.Lexes shape) e) :
    Sound (elemLexemes erased e) :=
  (h.mono fun _ h => h.stand).stand.sound (closed_good.elem (h.mono fun _ h => h.good))

end Types

/-! ## Type parameters -/

/-- The lexemes of type parameters. -/
def typeParamsLexemes (erased : Bool) (fs : List FieldGroup) : List Lexeme :=
  if fs.isEmpty then []
  else .token .lbrack ['['] :: (List.intercalate [.token .comma [','], .layout [' ']]
    (fieldsLexemes erased fs) ++ [.token .rbrack [']']])

section TypeParams

variable {erased shape : Bool}

theorem namesLexemes_singleton (name : String) : namesLexemes [name] = [.ofWord name] := by
  simp [namesLexemes]

theorem namesLexemes_cons_cons (name next : String) (names : List String) :
    namesLexemes (name :: next :: names) =
      .ofWord name :: .token .comma [','] :: .layout [' '] :: namesLexemes (next :: names) := by
  rw [namesLexemes, List.map_cons, List.map_cons, List.intercalate_cons_cons]
  rfl

theorem IsConstraintOf.first {t : TypeExpr} (h : IsConstraintOf (IsType Leaf.ReadsBack erased) t) :
    ∃ k text ls, typeLexemes erased t = .token k text :: ls ∧
      (k.startsType = true ∨ k = .tilde) := by
  obtain ⟨first, more, hfirst, hl, -⟩ := (h.mono fun _ h => h.isRead).split
  obtain ⟨k, text, ls, hk, hstart⟩ := hfirst.first
  exact ⟨k, text, ls ++ more, by rw [hl, hk, List.cons_append], hstart⟩

/-- One round for each name, the last of them with the constraint. -/
theorem typeParamsLoop_group {t : TypeExpr} (h : IsConstraintOf (IsType Leaf.ReadsBack erased) t)
    {name : String} {names : List String} (hn : ∀ n ∈ name :: names, IsToken .ident n)
    (pending : List String) (s : Scanner) {u : Token} {rest more : List Token}
    (hu : (u.kind = .comma ∧ more = rest) ∨ (u.kind = .rbrack ∧ more = u :: rest))
    {n : Nat} {fs : List FieldGroup} {after : List Token}
    (hmore : typeParamsLoop typeExpr n [] more = .ok (fs, after)) :
    typeParamsLoop typeExpr (n + 1 + names.length) pending
      (s.tokens (namesLexemes (name :: names) ++ .layout [' '] :: typeLexemes erased t) ++
        u :: rest) = .ok (.mk (pending ++ name :: names) t :: fs, after) := by
  -- Names are put aside until one is followed by something else than a comma: the constraint
  -- of all of them.
  induction names generalizing name pending s with
  | nil =>
    have hk := (isToken_ident_iff.1 (hn name List.mem_cons_self)).2
    obtain ⟨k, text, ls, hl, hstart⟩ := h.first
    have hcomma : k ≠ .comma := by
      rintro rfl
      exact absurd hstart (by decide)
    have hends : u.kind.endsType = true ∧ u.kind ≠ .pipe := by
      rcases hu with ⟨hu, -⟩ | ⟨hu, -⟩ <;> rw [hu] <;> decide
    have hr := typeElem_reads (serves_typeExpr _) (h.mono fun _ h => h.isRead) (Nat.le_refl _)
      ((s.step (.ofWord name)).step (.layout [' '])) hends.1 hends.2 rest
    rw [hl, Scanner.tokens_token, List.cons_append] at hr
    rw [namesLexemes_singleton, List.length_nil, Nat.add_zero, typeParamsLoop]
    rcases hu with ⟨hu, rfl⟩ | ⟨hu, rfl⟩
    · simp [hk, hl, hcomma, hr, hu, expect_of_eq hu, hmore]
    · simp [hk, hl, hcomma, hr, hu, hmore]
  | cons next names ih =>
    have hk := (isToken_ident_iff.1 (hn name List.mem_cons_self)).2
    have ih := ih (fun n hm => hn n (List.mem_cons_of_mem _ hm)) (pending ++ [name])
      (((s.step (.ofWord name)).step (.token .comma [','])).step (.layout [' ']))
    rw [namesLexemes_cons_cons, List.length_cons, ← Nat.add_assoc, typeParamsLoop]
    rw [List.append_assoc, List.singleton_append] at ih
    simpa [hk] using ih

theorem fieldLexemes_of_ne {names : List String} (h : names ≠ []) (ls : List Lexeme) :
    fieldLexemes names ls = namesLexemes names ++ .layout [' '] :: ls := by
  cases names with
  | nil => exact absurd rfl h
  | cons name names => rfl

/-- The number of names among some fields. -/
def namesCount (fs : List FieldGroup) : Nat := (fs.map fun f => f.names.length).sum

theorem length_le_names (names : List String) : names.length ≤ tokenCount (namesLexemes names) := by
  induction names with
  | nil => exact Nat.zero_le _
  | cons name names ih =>
    cases names with
    | nil => simp [namesLexemes_singleton]
    | cons next names =>
      rw [namesLexemes_cons_cons, tokenCount_ofWord, tokenCount_token, tokenCount_layout,
        List.length_cons]
      omega

theorem fields_singleton (f : FieldGroup) :
    List.intercalate [.token .comma [','], .layout [' ']] (fieldsLexemes erased [f]) =
      fieldLexemes f.names (typeLexemes erased f.type) := by
  simp [fieldsLexemes_eq]

theorem fields_cons_cons (f g : FieldGroup) (fs : List FieldGroup) :
    List.intercalate [.token .comma [','], .layout [' ']] (fieldsLexemes erased (f :: g :: fs)) =
      fieldLexemes f.names (typeLexemes erased f.type) ++ .token .comma [','] :: .layout [' '] ::
        List.intercalate [.token .comma [','], .layout [' ']]
          (fieldsLexemes erased (g :: fs)) := by
  simp [fieldsLexemes_eq, List.intercalate_cons_cons]

theorem namesCount_le {fs : List FieldGroup} (h : ∀ f ∈ fs, f.names ≠ []) :
    namesCount fs ≤ tokenCount (List.intercalate [.token .comma [','], .layout [' ']]
      (fieldsLexemes erased fs)) := by
  induction fs with
  | nil => exact Nat.zero_le _
  | cons f fs ih =>
    obtain ⟨hf, hfs⟩ := List.forall_mem_cons.1 h
    have ih := ih hfs
    have hle := length_le_names f.names
    have hfield : tokenCount (namesLexemes f.names) ≤
        tokenCount (fieldLexemes f.names (typeLexemes erased f.type)) := by
      rw [fieldLexemes_of_ne hf, tokenCount_append]
      omega
    cases fs with
    | nil =>
      rw [fields_singleton]
      simpa [namesCount] using Nat.le_trans hle hfield
    | cons g fs =>
      rw [fields_cons_cons, tokenCount_append, tokenCount_token, tokenCount_layout]
      simp only [namesCount, List.map_cons, List.sum_cons] at ih ⊢
      omega

/-- Every name takes one round, and the closing bracket the last. -/
theorem typeParamsLoop_reads {f : FieldGroup} {fs : List FieldGroup}
    (h : ∀ g ∈ f :: fs, IsTypeParam Leaf.ReadsBack erased g) (s : Scanner) {u : Token}
    (hu : u.kind = .rbrack) (rest : List Token) (n : Nat) :
    typeParamsLoop typeExpr (n + 1 + namesCount (f :: fs)) [] (s.tokens (List.intercalate
      [.token .comma [','], .layout [' ']] (fieldsLexemes erased (f :: fs))) ++ u :: rest) =
      .ok (f :: fs, rest) := by
  -- The rounds are those of the first group, and then those of the others with a comma in between.
  induction fs generalizing f s with
  | nil =>
    obtain ⟨names, type⟩ := f
    obtain ⟨hne, hn, hc⟩ := h _ List.mem_cons_self
    obtain ⟨name, names, rfl⟩ := List.exists_cons_of_ne_nil hne
    have hend : typeParamsLoop typeExpr (n + 1) [] (u :: rest) = .ok ([], rest) := by
      simp [typeParamsLoop, eat_of_eq hu]
    have hr := typeParamsLoop_group hc hn [] s (Or.inr ⟨hu, rfl⟩) hend
    rw [fields_singleton]
    have hcount : n + 1 + namesCount [FieldGroup.mk (name :: names) type] =
        n + 1 + 1 + names.length := by
      simp [namesCount]
      omega
    rw [hcount]
    exact hr
  | cons g fs ih =>
    obtain ⟨names, type⟩ := f
    obtain ⟨hf, hfs⟩ := List.forall_mem_cons.1 h
    obtain ⟨hne, hn, hc⟩ := hf
    obtain ⟨name, names, rfl⟩ := List.exists_cons_of_ne_nil hne
    have hmore := ih hfs (((s.after (fieldLexemes (name :: names)
      (typeLexemes erased type))).step (.token .comma [','])).step (.layout [' ']))
    have hr := typeParamsLoop_group hc hn [] s (Or.inl ⟨rfl, rfl⟩) hmore
      (u := (s.after (fieldLexemes (name :: names) (typeLexemes erased type))).token .comma [','])
    have hcount : n + 1 + namesCount (FieldGroup.mk (name :: names) type :: g :: fs) =
        n + 1 + namesCount (g :: fs) + 1 + names.length := by
      simp [namesCount]
      omega
    rw [fields_cons_cons, hcount, Scanner.tokens_append, Scanner.tokens_token,
      Scanner.tokens_blank, List.append_assoc, List.cons_append]
    exact hr

theorem typeParams_reads {fs : List FieldGroup} (hne : fs ≠ [])
    (h : ∀ f ∈ fs, IsTypeParam Leaf.ReadsBack erased f) (s : Scanner) (rest : List Token) :
    typeParams typeExpr (s.tokens (typeParamsLexemes erased fs) ++ rest) = .ok (fs, rest) := by
  obtain ⟨f, fs, rfl⟩ := List.exists_cons_of_ne_nil hne
  rw [typeParamsLexemes, if_neg (by simp), Scanner.tokens_token, Scanner.tokens_append,
    Scanner.tokens_token, Scanner.tokens_nil, List.cons_append, List.append_assoc,
    List.singleton_append]
  generalize s.step (.token .lbrack ['[']) = s'
  have hnames : namesCount (f :: fs) ≤ tokenCount (List.intercalate [.token .comma [','],
      .layout [' ']] (fieldsLexemes erased (f :: fs))) :=
    namesCount_le fun g hg => (h g hg).named
  have hlength := tokenCount_le_length s' (List.intercalate [.token .comma [','], .layout [' ']]
    (fieldsLexemes erased (f :: fs)))
  rw [typeParams, bind_apply, expect_token]
  simp only [bind_apply, remaining_apply, List.length_append, List.length_cons]
  obtain ⟨n, hn⟩ := Nat.exists_eq_add_of_le (Nat.le_trans hnames hlength)
  have hr := typeParamsLoop_reads h s' (u := (s'.after (List.intercalate
    [.token .comma [','], .layout [' ']] (fieldsLexemes erased (f :: fs)))).token .rbrack [']'])
    rfl rest (n + rest.length + 1)
  rw [hn]
  rw [← hr]
  congr 1
  omega

theorem sound_fields {fs : List FieldGroup} (hn : ∀ f ∈ fs, ∀ n ∈ f.names, isWord n = true)
    (h : ∀ f ∈ fs, Sound (typeLexemes erased f.type)) :
    Sound (List.intercalate [.token .comma [','], .layout [' ']] (fieldsLexemes erased fs)) := by
  refine sound_commas fun ls hm => ?_
  rw [fieldsLexemes_eq] at hm
  obtain ⟨f, hf, rfl⟩ := List.mem_map.1 hm
  rw [← paddedLexemes_one]
  exact sound_padded (hn f hf) (h f hf)

theorem free_typeParams {fs : List FieldGroup}
    (h : ∀ f ∈ fs, IsTypeParam Leaf.Lexes shape f) : Free (typeParamsLexemes erased fs) := by
  unfold typeParamsLexemes
  split
  · exact free_nil
  · have hs : Sound (List.intercalate [.token .comma [','], .layout [' ']]
        (fieldsLexemes erased fs)) :=
      sound_fields (fun f hf => (h f hf).names) fun f hf => (h f hf).constraint.sound
    exact Free.cons rfl (hs.free rfl (by decide) rfl)

end TypeParams

/-! ## Ways to write a type -/

/-- Whether some lexemes are a way to write a type. -/
structure Writes (ls : List Lexeme) (t : TypeExpr) : Prop where
  reads : ReadsAs ls t
  first : ∃ k text ms, ls = .token k text :: ms ∧ k.startsType = true
  ends : EndsLine ls
  /-- It does not begin like type parameters. -/
  plain : ∀ (s : Scanner) (rest : List Token), beginsTypeParams (s.tokens ls ++ rest) = false

section Writes

variable {erased shape : Bool}

theorem beginsTypeParams_of_ne {t : Token} (h : t.kind ≠ .lbrack) (ts : List Token) :
    beginsTypeParams (t :: ts) = false := by
  match ts with
  | [] | [_] | _ :: _ :: _ => simp [beginsTypeParams, h]

theorem IsType.writes {t : TypeExpr} (h : IsType Leaf.ReadsBack erased t) :
    Writes (typeLexemes erased t) t where
  reads := h.reads
  first := h.first
  ends := h.endsLine
  plain s rest := by
    obtain ⟨k, text, ls, hl, -⟩ := h.first
    rw [hl, Scanner.tokens_token, List.cons_append]
    by_cases hk : k = .lbrack
    · subst hk
      obtain ⟨elem, -, rfl | ⟨len, hlen, rfl⟩⟩ := h.of_lbrack hl
      · simp [beginsTypeParams]
      · exact hlen.not_typeParams s text _ rest
    · exact beginsTypeParams_of_ne hk _

theorem structBlock_writes {tabs : List Lexeme} (htabs : ∀ l ∈ tabs, l.isLayout = true)
    {xs : List (Nat × FieldGroup)} (hn : ∀ x ∈ xs, ∀ n ∈ x.2.names, IsToken .ident n)
    (h : ∀ x ∈ xs, IsType Leaf.ReadsBack erased x.2.type) :
    Writes (blockLexemes tabs "struct" (alignedLexemes erased) xs)
      (.struct (xs.map Prod.snd)) where
  reads := structBlock_reads htabs hn h
  first := ⟨_, _, _, rfl, rfl⟩
  ends := (((((endsLine_token rfl _).append _).append _).cons _).cons _).cons _ |>.cons _
  plain s rest := beginsTypeParams_of_ne (by simp) _

theorem interfaceBlock_writes {tabs : List Lexeme} (htabs : ∀ l ∈ tabs, l.isLayout = true)
    {es : List InterfaceElem}
    (h : ∀ e ∈ es, IsElemOf Leaf.ReadsBack erased (IsType Leaf.ReadsBack erased) e) :
    Writes (blockLexemes tabs "interface" (elemLexemes erased) es) (.interface es) where
  reads := interfaceBlock_reads htabs h
  first := ⟨_, _, _, rfl, rfl⟩
  ends := (((((endsLine_token rfl _).append _).append _).cons _).cons _).cons _ |>.cons _
  plain s rest := beginsTypeParams_of_ne (by simp) _

/-- The lexemes of the type of a declaration. A struct or interface with entries has a line for
each, with `tabs` before every line but the first; `align` gives the blanks, beyond one, between
the names of a field and its type. -/
def declaredLexemes (erased : Bool) (align : List FieldGroup → List (Nat × FieldGroup))
    (tabs : List Lexeme) : TypeExpr → List Lexeme
  | .struct (field :: fields) =>
    blockLexemes tabs "struct" (alignedLexemes erased) (align (field :: fields))
  | .interface (elem :: elems) => blockLexemes tabs "interface" (elemLexemes erased) (elem :: elems)
  | type => typeLexemes erased type

variable {align : List FieldGroup → List (Nat × FieldGroup)} {tabs : List Lexeme} {t : TypeExpr}

/-- A type of a declaration has several lines only if it is a struct or interface with entries. -/
theorem declared_cases (erased : Bool) (align : List FieldGroup → List (Nat × FieldGroup))
    (t : TypeExpr) :
    (∃ field fields, t = .struct (field :: fields)) ∨
      (∃ elem elems, t = .interface (elem :: elems)) ∨
      ∀ tabs, declaredLexemes erased align tabs t = typeLexemes erased t := by
  fun_cases declaredLexemes erased align [] t with
  | case1 field fields => exact Or.inl ⟨field, fields, rfl⟩
  | case2 elem elems => exact Or.inr (Or.inl ⟨elem, elems, rfl⟩)
  | case3 _ hs hi => exact Or.inr (Or.inr fun tabs => declaredLexemes.eq_3 _ _ tabs t hs hi)

theorem mem_of_align (ha : ∀ fs, (align fs).map Prod.snd = fs) {fs : List FieldGroup}
    {x : Nat × FieldGroup} (h : x ∈ align fs) : x.2 ∈ fs := by
  rw [← ha fs]
  exact List.mem_map_of_mem h

theorem IsType.declared_writes (ha : ∀ fs, (align fs).map Prod.snd = fs)
    (htabs : ∀ l ∈ tabs, l.isLayout = true) (h : IsType Leaf.ReadsBack erased t) :
    Writes (declaredLexemes erased align tabs t) t := by
  obtain ⟨field, fields, rfl⟩ | ⟨elem, elems, rfl⟩ | hl := declared_cases erased align t
  · cases h with
    | struct hn hf =>
      have hw := structBlock_writes htabs (fun x hx => hn _ (mem_of_align ha hx))
        fun x hx => hf _ (mem_of_align ha hx)
      rwa [ha] at hw
  · cases h with
    | interface he => exact interfaceBlock_writes htabs he
  · rw [hl]
    exact h.writes

theorem IsType.declared_sound (ha : ∀ fs, (align fs).map Prod.snd = fs) (htabs : Free tabs)
    (h : IsType Leaf.Lexes shape t) : Sound (declaredLexemes erased align tabs t) := by
  obtain ⟨field, fields, rfl⟩ | ⟨elem, elems, rfl⟩ | hl := declared_cases erased align t
  · cases h with
    | struct hn hf =>
      refine sound_block htabs (by decide) fun x hx => ?_
      exact sound_padded (hn _ (mem_of_align ha hx)) (hf _ (mem_of_align ha hx)).sound
  · cases h with
    | interface he => exact sound_block htabs (by decide) fun e hm => (he e hm).sound
  · rw [hl]
    exact h.sound

end Writes

/-! ## Entries -/

/-- Whether a parser of entries reads some lexemes, alone or in a list of entries. -/
structure SpecReads {α : Type} (spec : Parser α) (ls : List Lexeme) (x : α) : Prop where
  first : ∃ k text ms, ls = .token k text :: ms ∧ k ∉ [Kind.semi, .rparen, .lparen]
  reads : ∀ s : Scanner, ReadsBefore [.semi, .rparen] spec x (s.tokens ls)
  ends : EndsLine ls

/-- The lexemes of an entry of a `type` declaration, where `ls` are those of its type. -/
def typeSpecLexemes (erased : Bool) (name : String) (params : List FieldGroup) (isAlias : Bool)
    (ls : List Lexeme) : List Lexeme :=
  .ofWord name :: (typeParamsLexemes erased params ++
    ((if isAlias then [.layout [' '], .token .assign ['=']] else []) ++ .layout [' '] :: ls))

section TypeSpec

variable {erased shape : Bool} {name : String} {params : List FieldGroup} {isAlias : Bool}
  {ls : List Lexeme} {t : TypeExpr}

theorem IsConstraintOf.first_unsigned (h : IsConstraintOf (IsType Leaf.ReadsBack erased) t)
    (hs : t.firstTerm.isSigned = false) :
    ∃ k text ls, typeLexemes erased t = .token k text :: ls ∧
      k ∈ [Kind.tilde, .ident, .lbrack, .kwFunc, .kwMap, .kwChan, .kwStruct, .kwInterface] := by
  have hterm : ∀ {t : TypeExpr}, IsTermOf (IsType Leaf.ReadsBack erased) t → t.isSigned = false →
      ∃ k text ls, typeLexemes erased t = .token k text :: ls ∧
        k ∈ [Kind.tilde, .ident, .lbrack, .kwFunc, .kwMap, .kwChan, .kwStruct,
          .kwInterface] := by
    intro t h hs
    cases h with
    | type h =>
      obtain ⟨k, text, ls, hl, hk⟩ := h.first_unsigned hs
      exact ⟨k, text, ls, hl, List.mem_cons_of_mem _ hk⟩
    | tilde h => exact ⟨_, _, _, by rw [typeLexemes], by decide⟩
  cases h with
  | term h =>
    refine hterm h ?_
    cases h with
    | type h => cases h <;> exact hs
    | tilde h => exact hs
  | @union terms hlen h =>
    obtain _ | ⟨a, _ | ⟨b, terms⟩⟩ := terms
    · simp at hlen
    · simp at hlen
    · obtain ⟨k, text, ls, hl, hk⟩ := hterm (h a List.mem_cons_self) hs
      rw [typeLexemes, typesLexemes, typesLexemes, List.intercalate_cons_cons, hl]
      exact ⟨k, text, _, rfl, hk⟩

/-- The token behind the first name of type parameters tells that they are no length. -/
theorem IsTypeParam.second {f : FieldGroup} (h : IsTypeParam Leaf.ReadsBack erased f)
    (ho : 2 ≤ f.names.length ∨ f.type.firstTerm.isSigned = false) (s : Scanner) :
    ∃ t u ts, s.tokens (fieldLexemes f.names (typeLexemes erased f.type)) = t :: u :: ts ∧
      t.kind = .ident ∧ u.kind ∈ [Kind.ident, .comma, .tilde, .kwInterface, .lbrack, .kwFunc,
        .kwMap, .kwChan, .kwStruct] := by
  obtain ⟨names, type⟩ := f
  obtain ⟨hne, hn, hc⟩ := h
  obtain ⟨name, names, rfl⟩ := List.exists_cons_of_ne_nil hne
  have hk := (isToken_ident_iff.1 (hn name List.mem_cons_self)).2
  rw [FieldGroup.names_mk, fieldLexemes_of_ne (by simp)]
  cases names with
  | nil =>
    rcases ho with hlen | hs
    · exact absurd hlen (by simp)
    · obtain ⟨k, text, ls, hl, hmem⟩ := hc.first_unsigned hs
      rw [namesLexemes_singleton, FieldGroup.type_mk, show typeLexemes erased type = _ from hl]
      refine ⟨_, _, _, by simp; exact ⟨rfl, rfl, rfl⟩, hk, ?_⟩
      have hall : ∀ k ∈ [Kind.tilde, .ident, .lbrack, .kwFunc, .kwMap, .kwChan, .kwStruct,
          .kwInterface], k ∈ [Kind.ident, .comma, .tilde, .kwInterface, .lbrack, .kwFunc,
        .kwMap, .kwChan, .kwStruct] := by decide
      exact hall k hmem
  | cons next names =>
    rw [namesLexemes_cons_cons]
    exact ⟨_, _, _, by simp; exact ⟨rfl, rfl, rfl⟩, hk, by simp⟩

theorem beginsTypeParams_params (hne : params ≠ [])
    (h : ∀ f ∈ params, IsTypeParam Leaf.ReadsBack erased f) (ho : OpensTypeParams params)
    (s : Scanner) (rest : List Token) :
    beginsTypeParams (s.tokens (typeParamsLexemes erased params) ++ rest) = true := by
  obtain ⟨f, fs, rfl⟩ := List.exists_cons_of_ne_nil hne
  have hlist : ∃ ls, List.intercalate [.token .comma [','], .layout [' ']]
      (fieldsLexemes erased (f :: fs)) = fieldLexemes f.names (typeLexemes erased f.type) ++ ls := by
    cases fs with
    | nil => exact ⟨[], by rw [fields_singleton, List.append_nil]⟩
    | cons g fs => exact ⟨_, fields_cons_cons f g fs⟩
  obtain ⟨ls, hls⟩ := hlist
  obtain ⟨t, u, ts, hts, ht, hu⟩ := (h f List.mem_cons_self).second (ho f rfl)
    (s.step (.token .lbrack ['[']))
  rw [typeParamsLexemes, if_neg (by simp), hls, Scanner.tokens_token, Scanner.tokens_append,
    Scanner.tokens_append, hts]
  simpa [beginsTypeParams, ht] using hu

theorem typeSpec_reads (hn : IsToken .ident name)
    (hp : ∀ f ∈ params, IsTypeParam Leaf.ReadsBack erased f) (ho : OpensTypeParams params)
    (ht : Writes ls t) :
    SpecReads typeSpec (typeSpecLexemes erased name params isAlias ls)
      { name, typeParams := params, isAlias, type := t } := by
  have hk := (isToken_ident_iff.1 hn).2
  refine ⟨⟨_, _, _, rfl, by simp [hk]⟩, fun s u rest hu => ?_, ?_⟩
  · have hends : u.kind.endsType = true := by
      simp only [List.mem_cons, List.not_mem_nil, or_false] at hu
      rcases hu with hu | hu <;> rw [hu] <;> rfl
    obtain ⟨k, text, ms, hl, hstart⟩ := ht.first
    have hassign : k ≠ .assign := by
      rintro rfl
      exact absurd hstart (by decide)
    have hread := fun s => serves_typeExpr _ ht.reads (Nat.le_refl _) s hends rest
    rw [typeSpecLexemes, Scanner.tokens_ofWord, Scanner.tokens_append, List.cons_append,
      List.append_assoc, typeSpec, bind_apply, hk, ident_token]
    simp only [bind_apply, remaining_apply, String.ofList_toList]
    generalize s.step (.ofWord name) = s'
    -- Behind the type parameters, of which there may be none.
    have hrest : ∀ s : Scanner, (do
        let isAlias ← eat .assign
        return { name, typeParams := params, isAlias, type := ← typeExpr } : Parser TypeSpec)
          (s.tokens ((if isAlias then [.layout [' '], .token .assign ['=']] else []) ++
            .layout [' '] :: ls) ++ u :: rest) =
        .ok ({ name, typeParams := params, isAlias, type := t }, u :: rest) := by
      intro s
      cases isAlias with
      | true => simp [hread]
      | false =>
        have hread := hread (s.step (.layout [' ']))
        rw [hl, Scanner.tokens_token, List.cons_append] at hread
        simp [hl, hassign, hread]
    cases hparams : params with
    | nil =>
      subst hparams
      have hbegins : beginsTypeParams (s'.tokens ((if isAlias then
          [.layout [' '], .token .assign ['=']] else []) ++ .layout [' '] :: ls) ++ u :: rest) =
          false := by
        cases isAlias with
        | true => simp [beginsTypeParams]
        | false => simpa using ht.plain (s'.step (.layout [' '])) (u :: rest)
      have hrest := hrest s'
      simpa [typeParamsLexemes, hbegins] using hrest
    | cons f fs =>
      rw [← hparams]
      have hne : params ≠ [] := by simp [hparams]
      rw [beginsTypeParams_params hne hp ho, if_pos rfl, bind_apply, typeParams_reads hne hp]
      exact hrest _
  · exact (((ht.ends.cons _).append _).append _).cons _

theorem sound_typeSpec (hn : isWord name = true)
    (hp : ∀ f ∈ params, IsTypeParam Leaf.Lexes shape f) (hl : Sound ls) :
    Sound (typeSpecLexemes erased name params isAlias ls) := by
  have hparams : Free (typeParamsLexemes erased params) := free_typeParams hp
  have htail : Sound ((if isAlias then [Lexeme.layout [' '], .token .assign ['=']] else []) ++
      .layout [' '] :: ls) := by
    cases isAlias with
    | true => exact (free_assign.before hl).cons rfl
    | false => exact hl.cons rfl
  have hall := hparams.before htail
  refine ⟨fun hd rest => ⟨word_stands hn ?_, hall.stand hd rest⟩, ?_⟩
  · cases params with
    | nil => cases isAlias <;> exact endsWord_cons.2 (by decide)
    | cons f fs => exact endsWord_cons.2 (by decide)
  · exact List.forall_mem_cons.2 ⟨rfl, hall.good⟩

end TypeSpec

/-! ## Values -/

/-- Whether some lexemes are a way to write an initializer. -/
structure WritesValue (ls : List Lexeme) (value : Initializer) : Prop where
  first : ∃ k text ms, ls = .token k text :: ms
  reads : ∀ s : Scanner, ReadsBefore [.comma, .semi, .rparen] initializer value (s.tokens ls)
  ends : EndsLine ls

/-- Whether tokens of the given kinds are a basic literal, or a number with a sign. -/
def isLiteralKinds : List Kind → Bool
  | [k] => k.isLiteral
  | [sign, k] => (sign == .plus || sign == .minus) && k == .number
  | _ => false

theorem isLiteralRun_eq (ts : List Token) :
    isLiteralRun ts = isLiteralKinds (ts.map Token.kind) := by
  match ts with
  | [] | [_] | [_, _] | _ :: _ :: _ :: _ => rfl

theorem splitBalanced_stop {u : Token} (hu : u.kind ∈ [Kind.comma, .semi, .rparen])
    (rest : List Token) : Token.splitBalanced [.comma, .semi] 0 (u :: rest) = ([], u :: rest) := by
  rw [Token.splitBalanced.eq_def]
  simp only [List.mem_cons, List.not_mem_nil, or_false] at hu
  rcases hu with hu | hu | hu <;> simp [hu, Kind.opens, Kind.closes]

/-- **An expression on one line is read back as it is written.** -/
theorem writesValue_line {ls : List Lexeme} (hfirst : ∃ k text ms, ls = .token k text :: ms)
    (hg : ∀ l ∈ ls, l.isBad = false) (hb : Balanced ls)
    (htop : ∀ k ∈ topKinds 0 ls, k ∉ [Kind.comma, .semi])
    (hline : ∀ text, .layout text ∈ ls → '\n' ∉ text) (hends : EndsLine ls) :
    WritesValue ls {
      text := String.ofList (spellLexemes ls)
      isLiteral := isLiteralKinds (tokenKinds ls) } := by
  refine ⟨hfirst, fun s u rest hu => ?_, hends⟩
  have hsplit := splitBalanced_tokens s hb htop hline (u :: rest)
  rw [splitBalanced_stop hu, List.append_nil] at hsplit
  have hkinds := kinds_tokens s hline
  obtain ⟨k, text, ms, rfl⟩ := hfirst
  have hspell := s.spell_tokens (fun l hl => hg l (List.mem_cons_of_mem _ hl)) (s.gap_after hends)
  rw [Scanner.tokens_token] at hsplit hspell hkinds ⊢
  simp only [initializer, bind_apply, remaining_apply, hsplit, continueAt_apply, pure_apply, hspell,
    isLiteralRun_eq, hkinds]

/-- The lexemes of an entry of a `const` or `var` declaration. -/
def valueSpecLexemes (names : List String) (type : Option (List Lexeme))
    (values : List (List Lexeme)) : List Lexeme :=
  namesLexemes names ++ ((type.map (.layout [' '] :: ·)).getD [] ++
    if values.isEmpty then []
    else .layout [' '] :: .token .assign ['='] :: .layout [' '] ::
      List.intercalate [.token .comma [','], .layout [' ']] values)

theorem values_read {values : List (List Lexeme × Initializer)} (hne : values ≠ [])
    (hv : ∀ v ∈ values, WritesValue v.1 v.2) (s : Scanner) {u : Token}
    (hu : u.kind ∈ [Kind.semi, .rparen]) (rest : List Token) :
    separated .comma initializer (s.tokens (List.intercalate [.token .comma [','], .layout [' ']]
      (values.map Prod.fst)) ++ u :: rest) = .ok (values.map Prod.snd, u :: rest) := by
  have hitems := (items_intercalate (g := Prod.fst) commaBlank_tokens s values).map
    (f := Prod.snd) fun v hm ts hts => by
      obtain ⟨s, rfl⟩ := hts
      exact (hv v hm).reads s
  exact separated_items (by decide) hu rest hitems (by simpa using hne)

theorem namesLexemes_first {names : List String} (hne : names ≠ [])
    (hn : ∀ n ∈ names, IsToken .ident n) :
    ∃ text ls, namesLexemes names = .token .ident text :: ls := by
  obtain ⟨name, names, rfl⟩ := List.exists_cons_of_ne_nil hne
  have hword : Lexeme.ofWord name = .token .ident name.toList := by
    rw [Lexeme.ofWord, (isToken_ident_iff.1 (hn name List.mem_cons_self)).2]
  cases names with
  | nil => exact ⟨_, _, by rw [namesLexemes_singleton, hword]⟩
  | cons next names => exact ⟨_, _, by rw [namesLexemes_cons_cons, hword]⟩

/-- Behind the names and the type of an entry stand its values, or what follows the entry. -/
theorem valuesPart_reads {values : List (List Lexeme × Initializer)}
    (hv : ∀ v ∈ values, WritesValue v.1 v.2) (spec : List Initializer → ValueSpec) (s : Scanner)
    {u : Token} (hu : u.kind ∈ [Kind.semi, .rparen]) (rest : List Token) :
    ∃ v ts, s.tokens (if (values.map Prod.fst).isEmpty then []
        else .layout [' '] :: .token .assign ['='] :: .layout [' '] ::
          List.intercalate [.token .comma [','], .layout [' ']] (values.map Prod.fst)) ++
        u :: rest = v :: ts ∧ v.kind ∈ [Kind.assign, .semi, .rparen] ∧
      (do let values ← if ← eat .assign then separated .comma initializer else pure []
          return spec values : Parser ValueSpec) (v :: ts) =
        .ok (spec (values.map Prod.snd), u :: rest) := by
  cases hvals : values with
  | nil =>
    refine ⟨u, rest, rfl, List.mem_cons_of_mem _ hu, ?_⟩
    have hassign : u.kind ≠ .assign := by
      rintro he
      rw [he] at hu
      exact absurd hu (by decide)
    simp [eat_of_ne hassign]
  | cons v vs =>
    have hr := fun s => values_read (by simp [hvals]) hv s hu rest
    simp only [hvals, List.map_cons] at hr
    refine ⟨_, _, by rw [if_neg (by simp)]; simp; exact ⟨rfl, rfl⟩, by simp, ?_⟩
    simp [hr]

theorem endsLine_valueSpec {names : List String} (hne : names ≠ [])
    (hn : ∀ n ∈ names, IsToken .ident n) {type : Option (List Lexeme)}
    (ht : ∀ ls ∈ type, EndsLine ls) {values : List (List Lexeme)}
    (hv : ∀ ls ∈ values, EndsLine ls) : EndsLine (valueSpecLexemes names type values) := by
  have hnames : EndsLine (namesLexemes names) := by
    refine EndsLine.intercalate (by simpa using hne) fun ls hm => ?_
    obtain ⟨n, hmem, rfl⟩ := List.mem_map.1 hm
    exact endsLine_name (hn n hmem)
  rw [valueSpecLexemes]
  cases values with
  | nil =>
    cases type with
    | none => simpa using hnames
    | some ls => simpa using ((ht ls rfl).cons _).append _
  | cons v vs =>
    refine EndsLine.append (EndsLine.append ?_ _) _
    rw [if_neg (by simp)]
    exact EndsLine.cons (EndsLine.cons (EndsLine.cons (EndsLine.intercalate (by simp) hv) _) _) _

theorem valueSpec_reads {names : List String} (hne : names ≠ [])
    (hn : ∀ n ∈ names, IsToken .ident n) {type : Option (List Lexeme × TypeExpr)}
    (ht : ∀ p ∈ type, Writes p.1 p.2) {values : List (List Lexeme × Initializer)}
    (hv : ∀ v ∈ values, WritesValue v.1 v.2) :
    SpecReads valueSpec
      (valueSpecLexemes names (type.map Prod.fst) (values.map Prod.fst))
      { names, type := type.map Prod.snd, values := values.map Prod.snd } := by
  refine ⟨?_, fun s u rest hu => ?_, endsLine_valueSpec hne hn ?_ ?_⟩
  · obtain ⟨text, ls, hl⟩ := namesLexemes_first hne hn
    exact ⟨.ident, text, _, by rw [valueSpecLexemes, hl]; rfl, by decide⟩
  · have hvalues := fun s =>
      valuesPart_reads hv (fun values => { names, type := type.map Prod.snd, values }) s hu rest
    -- Without a type the names are followed by the values at once; neither goes on with a comma.
    cases type with
    | none =>
      obtain ⟨v, ts, hts, hv, hr⟩ := hvalues (s.after (namesLexemes names))
      have hcomma : v.kind ≠ .comma := by
        intro he
        rw [he] at hv
        exact absurd hv (by decide)
      rw [valueSpecLexemes, Option.map_none, Option.map_none, Option.getD_none, List.nil_append,
        Scanner.tokens_append, List.append_assoc, hts, valueSpec, bind_apply,
        idents_reads hn hne s hcomma]
      simp only [List.mem_cons, List.not_mem_nil, or_false] at hv
      rcases hv with hv | hv | hv <;> simpa [hv] using hr
    | some p =>
      obtain ⟨ls, t⟩ := p
      have ht := ht (ls, t) rfl
      obtain ⟨k, text, ms, hl, hstart⟩ := ht.first
      have hcomma : k ≠ .comma := by
        rintro rfl
        exact absurd hstart (by decide)
      generalize hs' : (s.after (namesLexemes names)).step (.layout [' ']) = s'
      obtain ⟨v, ts, hts, hv, hr⟩ := hvalues (s'.after ls)
      have hends : v.kind.endsType = true := by
        have hall : ∀ k ∈ [Kind.assign, .semi, .rparen], k.endsType = true := by decide
        exact hall _ hv
      have hread := serves_typeExpr _ ht.reads (Nat.le_refl _) s' hends ts
      rw [valueSpecLexemes, Option.map_some, Option.map_some, Option.getD_some,
        Scanner.tokens_append, List.cons_append, Scanner.tokens_blank, hs', Scanner.tokens_append,
        List.append_assoc, List.append_assoc, hts, valueSpec, bind_apply]
      rw [hl, Scanner.tokens_token, List.cons_append] at hread ⊢
      rw [idents_reads hn hne s hcomma]
      have hk : ∀ k : Kind, k.startsType = true → k ≠ .assign ∧ k ≠ .semi ∧ k ≠ .rparen := by
        intro k
        cases k <;> decide
      obtain ⟨h₁, h₂, h₃⟩ := hk k hstart
      simpa [h₁, h₂, h₃, hread] using hr
  · intro ls hm
    obtain ⟨p, hp, rfl⟩ := Option.mem_map.1 hm
    exact (ht p hp).ends
  · intro ls hm
    obtain ⟨v, hmem, rfl⟩ := List.mem_map.1 hm
    exact (hv v hmem).ends

theorem sound_valueSpec {names : List String} (hn : ∀ n ∈ names, isWord n = true)
    {type : Option (List Lexeme)} (ht : ∀ ls ∈ type, Sound ls) {values : List (List Lexeme)}
    (hv : ∀ ls ∈ values, Sound ls) : Sound (valueSpecLexemes names type values) := by
  have hnames := sound_names hn
  have hvalues : values ≠ [] → Sound (.token .assign ['='] :: .layout [' '] ::
      List.intercalate [.token .comma [','], .layout [' ']] values) :=
    fun _ => free_assign.before (sound_commas hv)
  unfold valueSpecLexemes
  cases type with
  | none =>
    cases values with
    | nil => simpa using hnames
    | cons v vs => exact hnames.beside (hvalues (by simp))
  | some ls =>
    have hl := ht ls rfl
    cases values with
    | nil => simpa using hnames.beside hl
    | cons v vs => exact hnames.beside (hl.beside (hvalues (by simp)))

/-! ## Imports -/

/-- The lexeme of a string literal. -/
def quotedLexeme (s : String) : Lexeme := .token .string ('"' :: (s.toList ++ ['"']))

/-- Whether a text can be quoted as it is. -/
def IsPlain (s : String) : Prop := ∀ c ∈ s.toList, c ≠ '"' ∧ c ≠ '\\' ∧ c ≠ '\n'

/-- The lexeme of the name of an import. -/
def importName (name : String) : Lexeme :=
  if name = "." then .token .dot ['.'] else .ofWord name

/-- The lexemes of an import. -/
def importLexemes (i : Import) : List Lexeme :=
  (i.name.map fun name => [importName name, .layout [' ']]).getD [] ++ [quotedLexeme i.path]

theorem quotedTail?_plain {cs : List Char} (h : ∀ c ∈ cs, c ≠ '"' ∧ c ≠ '\\' ∧ c ≠ '\n')
    (rest : List Char) : quotedTail? '"' (cs ++ '"' :: rest) = some (cs ++ ['"'], rest) := by
  induction cs with
  | nil => simp [quotedTail?_cons]
  | cons c cs ih =>
    obtain ⟨⟨hq, hb, hn⟩, hcs⟩ := List.forall_mem_cons.1 h
    rw [List.cons_append, quotedTail?_cons hb hn, ih hcs]
    simp [hq]

theorem free_quoted {s : String} (h : IsPlain s) : Free [quotedLexeme s] where
  stand rest := by
    refine ⟨⟨'"', s.toList ++ '"' :: rest, by simp [quotedLexeme], ?_⟩, trivial⟩
    show literal .string '"' _ (quotedTail? '"' (s.toList ++ '"' :: rest)) = _
    rw [quotedTail?_plain h]
    rfl
  good := List.forall_mem_singleton.2 rfl

/-- Whether an import can be written down. -/
structure IsImport (i : Import) : Prop where
  name : ∀ n ∈ i.name, n = "." ∨ IsToken .ident n
  path : IsPlain i.path

theorem unquote_quoted (s : String) : unquote ("\"" ++ (s ++ "\"")) = s := by
  simp [unquote]

theorem importSpec_reads {i : Import} (h : IsImport i) :
    SpecReads importSpec (importLexemes i) i := by
  obtain ⟨name, path⟩ := i
  have hends : EndsLine [quotedLexeme path] := endsLine_token rfl _
  cases name with
  | none =>
    refine ⟨⟨_, _, _, rfl, by decide⟩, fun s u rest _ => ?_, hends⟩
    simp [importLexemes, quotedLexeme, importSpec, unquote_quoted]
  | some name =>
    by_cases hdot : name = "."
    · subst hdot
      refine ⟨⟨.dot, _, _, rfl, by decide⟩, fun s u rest _ => ?_, (hends.cons _).cons _⟩
      simp [importLexemes, importName, quotedLexeme, importSpec, unquote_quoted]
    · have hk := (isToken_ident_iff.1 ((h.name name rfl).resolve_left hdot)).2
      have hname : importName name = .token .ident name.toList := by
        rw [importName, if_neg hdot, Lexeme.ofWord, hk]
      rw [importLexemes, Option.map_some, Option.getD_some, hname]
      refine ⟨⟨.ident, _, _, rfl, by decide⟩, fun s u rest _ => ?_, (hends.cons _).cons _⟩
      simp [quotedLexeme, importSpec, unquote_quoted]

theorem free_import {i : Import} (hn : ∀ n ∈ i.name, n = "." ∨ isWord n = true)
    (hp : Free [quotedLexeme i.path]) : Free (importLexemes i) := by
  obtain ⟨name, path⟩ := i
  cases name with
  | none => exact hp
  | some name =>
    refine Free.append ?_ hp
    by_cases hdot : name = "."
    · rw [Option.map_some, Option.getD_some, importName, if_pos hdot]
      refine ⟨fun rest => ⟨dot_stands (by decide) (by decide),
        Lexeme.standsBefore_of_isFree rfl rest, trivial⟩, by simp [Lexeme.isBad]⟩
    · rw [Option.map_some, Option.getD_some, importName, if_neg hdot]
      exact (sound_word ((hn name rfl).resolve_left hdot)).blank

theorem IsImport.free {i : Import} (h : IsImport i) : Free (importLexemes i) := by
  refine free_import (fun n hn => ?_) (free_quoted h.path)
  exact (h.name n hn).imp_right fun ht => (isToken_ident_iff.1 ht).1

/-! ## Functions -/

/-- The lexemes of a receiver, with a blank behind them. -/
def receiverLexemes (erased : Bool) : Option (List FieldGroup) → List Lexeme
  | none => []
  | some fs =>
    .token .lparen ['('] ::
      (List.intercalate [.token .comma [','], .layout [' ']] (fieldsLexemes erased fs) ++
        [.token .rparen [')'], .layout [' ']])

/-- The lexemes of a body, where `inner` are those between the braces. -/
def bodyLexemes : Option (List Lexeme) → List Lexeme
  | none => []
  | some inner => .layout [' '] :: .token .lbrace ['{'] :: (inner ++ [.token .rbrace ['}']])

/-- The lexemes of a function. -/
def funcLexemes (erased : Bool) (receiver : Option (List FieldGroup)) (name : String)
    (signature : Signature) (inner : Option (List Lexeme)) : List Lexeme :=
  .ofWord "func" :: .layout [' '] :: (receiverLexemes erased receiver ++
    .ofWord name :: (typeParamsLexemes erased signature.typeParams ++
      (signatureLexemes erased signature ++ bodyLexemes inner)))

section Func

variable {erased shape : Bool}

theorem body_reads {inner : List Lexeme} (hb : Balanced inner)
    (hg : ∀ l ∈ inner, l.isBad = false) (s : Scanner) (rest : List Token) :
    body (s.tokens (.token .lbrace ['{'] :: (inner ++ [.token .rbrace ['}']])) ++ rest) =
      .ok (String.ofList (spellLexemes inner), rest) := by
  rw [Scanner.tokens_token, Scanner.tokens_append, Scanner.tokens_token, Scanner.tokens_nil,
    List.cons_append, List.append_assoc, List.singleton_append]
  generalize hs : s.step (.token .lbrace ['{']) = s'
  have hgap : s'.gap = [] := by
    rw [← hs]
    rfl
  generalize hclose : (s'.after inner).token .rbrace ['}'] = close
  have hsplit := splitClose?_balanced s' hb (by rw [← hclose]; rfl : close.kind.opens = false)
    (by rw [← hclose]; rfl) rest
  have hinner := s'.inner_tokens hgap hg (by rw [← hclose]; rfl :
    close.gap = String.ofList (s'.after inner).gap)
  simp only [body, bind_apply, remaining_apply, hsplit, continueAt_apply, pure_apply, hinner]

/-- Parameters and results are read one after the other, as in a signature. -/
theorem bind_signature {α : Type} (p : Parser TypeExpr)
    (k : List FieldGroup → Option (List FieldGroup) → Parser α) (ts : List Token) :
    (do let ps ← params p
        let rs ← results p
        k ps rs) ts = (signature p >>= fun sig => k sig.params sig.results) ts := by
  simp only [signature, bind_apply]
  cases params p ts with
  | error fault => rfl
  | ok r =>
    simp only
    cases results p r.2 with
    | error fault => rfl
    | ok r => rfl

/-! Each optional part of a function is read where it stands, and not where it is missing. -/

variable {α : Type} (s : Scanner) {u : Token} (rest : List Token)

theorem optionalBody_reads {inner : Option (List Lexeme)} (hb : ∀ ls ∈ inner, Balanced ls)
    (hg : ∀ ls ∈ inner, ∀ l ∈ ls, l.isBad = false) (hu : u.kind ≠ .lbrace)
    (k : Option String → Parser α) :
    (do let body ← if ← isAt .lbrace then some <$> body else pure none
        k body) (s.tokens (bodyLexemes inner) ++ u :: rest) =
      k (inner.map fun ls => String.ofList (spellLexemes ls)) (u :: rest) := by
  cases inner with
  | none => simp [bodyLexemes, hu]
  | some ls =>
    have hbody := body_reads (hb ls rfl) (hg ls rfl) (s.step (.layout [' '])) (u :: rest)
    rw [Scanner.tokens_token, List.cons_append] at hbody
    simp [bodyLexemes, hbody]

theorem optionalTypeParams_reads {fs : List FieldGroup}
    (h : ∀ f ∈ fs, IsTypeParam Leaf.ReadsBack erased f) (hu : u.kind ≠ .lbrack)
    (k : List FieldGroup → Parser α) :
    (do let typeParams ← if ← isAt .lbrack then typeParams typeExpr else pure []
        k typeParams) (s.tokens (typeParamsLexemes erased fs) ++ u :: rest) = k fs (u :: rest) := by
  cases fs with
  | nil => simp [typeParamsLexemes, hu]
  | cons f fs =>
    have hread := typeParams_reads (by simp) h s (u :: rest)
    rw [typeParamsLexemes, if_neg (by simp), Scanner.tokens_token, List.cons_append] at hread ⊢
    simp [hread]

theorem optionalReceiver_reads {receiver : Option (List FieldGroup)}
    (h : ∀ fs ∈ receiver, IsParams Leaf.ReadsBack erased fs) (hu : u.kind ≠ .lparen)
    (k : Option (List FieldGroup) → Parser α) :
    (do let receiver ← if ← isAt .lparen then some <$> params typeExpr else pure none
        k receiver) (s.tokens (receiverLexemes erased receiver) ++ u :: rest) =
      k receiver (u :: rest) := by
  cases receiver with
  | none => simp [receiverLexemes, hu]
  | some fs =>
    obtain ⟨huniform, hnames, htypes⟩ := h fs rfl
    have hread := fun (o c : Scanner) => params_reads (serves_typeExpr _) huniform hnames
      (fun f hf => (htypes f hf).mono fun _ h => h.isRead) (Nat.le_refl _)
      (s.step (.token .lparen ['('])) (rfl : (o.token .lparen ['(']).kind = _)
      (rfl : (c.token .rparen [')']).kind = _) (u :: rest)
    simp [receiverLexemes, Scanner.tokens_append, hread]

/-- **A function is read back.** -/
theorem funcDecl_reads {receiver : Option (List FieldGroup)}
    (hr : ∀ fs ∈ receiver, IsParams Leaf.ReadsBack erased fs) {name : String}
    (hn : IsToken .ident name) {sig : Signature}
    (hp : ∀ f ∈ sig.typeParams, IsTypeParam Leaf.ReadsBack erased f)
    (hs : IsSignatureOf Leaf.ReadsBack erased (IsType Leaf.ReadsBack erased)
      (.mk [] sig.params sig.results)) {inner : Option (List Lexeme)}
    (hb : ∀ ls ∈ inner, Balanced ls) (hg : ∀ ls ∈ inner, ∀ l ∈ ls, l.isBad = false)
    (hu : u.kind = .semi) :
    funcDecl (s.tokens (funcLexemes erased receiver name sig inner) ++ u :: rest) =
      .ok (⟨receiver, name, sig, inner.map fun ls => String.ofList (spellLexemes ls)⟩,
        u :: rest) := by
  have hk := (isToken_ident_iff.1 hn).2
  obtain ⟨typeParams, ps, rs⟩ := sig
  have hs : IsSignatureOf Leaf.ReadsBack erased (IsType Leaf.ReadsBack erased) (.mk [] ps rs) := hs
  have hp : ∀ f ∈ typeParams, IsTypeParam Leaf.ReadsBack erased f := hp
  rw [funcLexemes, Scanner.tokens_ofWord, Scanner.tokens_blank, Scanner.tokens_append,
    Scanner.tokens_ofWord, hk, Scanner.tokens_append, List.cons_append, List.append_assoc,
    List.cons_append, List.append_assoc, funcDecl, bind_apply, Kind.ofWord_func, expect_token]
  refine (optionalReceiver_reads _ _ hr (by simp) _).trans ?_
  rw [bind_apply, ident_token, String.ofList_toList]
  generalize hs' : Scanner.after _ (typeParamsLexemes erased _) = s'
  -- The signature begins with a parenthesis, and behind it stands the body or the line end.
  have hfirst : ∃ v ts, s'.tokens (signatureLexemes erased (.mk typeParams ps rs) ++
      bodyLexemes inner) ++ u :: rest = v :: ts ∧ v.kind = .lparen := by
    rw [signatureLexemes]
    exact ⟨_, _, rfl, rfl⟩
  have hlast : ∃ v ts, (s'.after (signatureLexemes erased (.mk typeParams ps rs))).tokens
      (bodyLexemes inner) ++ u :: rest = v :: ts ∧ v.kind.endsType = true := by
    cases inner with
    | none => exact ⟨u, rest, rfl, by rw [hu]; rfl⟩
    | some ls => exact ⟨_, _, by rw [bodyLexemes, Scanner.tokens_blank]; rfl, rfl⟩
  obtain ⟨v, ts, hts, hv⟩ := hfirst
  obtain ⟨w, us, hus, hw⟩ := hlast
  have hlbrack : v.kind ≠ .lbrack := by
    rw [hv]
    decide
  have hread := signature_reads (serves_typeExpr _) (hs.mono fun _ h => h.isRead)
    (Nat.le_refl _) s' hw us
  have hsig : signatureLexemes erased (.mk [] ps rs) =
      signatureLexemes erased (.mk typeParams ps rs) := by
    rw [signatureLexemes, signatureLexemes]
  rw [hts]
  refine (optionalTypeParams_reads _ _ hp hlbrack _).trans ?_
  rw [← hts, bind_signature, bind_apply, Scanner.tokens_append, List.append_assoc, hus]
  rw [hsig] at hread
  rw [hread, ← hus]
  exact optionalBody_reads _ _ hb hg (by rw [hu]; decide) _

theorem endsLine_func {receiver : Option (List FieldGroup)} {name : String} {sig : Signature}
    (hs : EndsLine (signatureLexemes erased sig)) (inner : Option (List Lexeme)) :
    EndsLine (funcLexemes erased receiver name sig inner) := by
  refine EndsLine.cons (EndsLine.cons (EndsLine.append (EndsLine.cons
    (EndsLine.append ?_ _) _) _) _) _
  cases inner with
  | none =>
    rw [bodyLexemes, List.append_nil]
    exact hs
  | some ls => exact ((((endsLine_token rfl _).append _).cons _).cons _).append _

theorem IsParamOf.sound {t : TypeExpr} (h : IsParamOf (IsType Leaf.Lexes shape) t) :
    Sound (typeLexemes erased t) :=
  (h.mono fun _ h => h.stand).stand.sound (closed_good.param (h.mono fun _ h => h.good))

theorem sound_func {receiver : Option (List FieldGroup)}
    (hr : ∀ fs ∈ receiver, IsParams Leaf.Lexes shape fs) {name : String}
    (hn : isWord name = true) {sig : Signature}
    (hp : ∀ f ∈ sig.typeParams, IsTypeParam Leaf.Lexes shape f)
    (hs : IsSignatureOf Leaf.Lexes shape (IsType Leaf.Lexes shape)
      (.mk [] sig.params sig.results)) {inner : Option (List Lexeme)}
    (hi : ∀ ls ∈ inner, Sound ls) :
    Sound (funcLexemes erased receiver name sig inner) := by
  obtain ⟨typeParams, ps, rs⟩ := sig
  have hsig : Sound (signatureLexemes erased (.mk typeParams ps rs)) :=
    ((hs.mono fun _ h => h.stand).stand.sound (closed_good.signature fun f hf =>
      closed_good.param ((hs.fields f hf).mono fun _ h => h.good)))
  have hbody : Sound (signatureLexemes erased (.mk typeParams ps rs) ++ bodyLexemes inner) := by
    cases inner with
    | none => simpa [bodyLexemes] using hsig
    | some ls =>
      have hinner : Free (ls ++ [.token .rbrace ['}']]) := (hi ls rfl).free rfl (by decide) rfl
      exact hsig.beside (hinner.sound.cons rfl)
  have hfree : Free (typeParamsLexemes erased typeParams) := free_typeParams hp
  have hparams := hfree.before hbody
  have hname : Sound (.ofWord name :: (typeParamsLexemes erased typeParams ++
      (signatureLexemes erased (.mk typeParams ps rs) ++ bodyLexemes inner))) := by
    refine ⟨fun hd rest => ⟨word_stands hn ?_, hparams.stand hd rest⟩,
      List.forall_mem_cons.2 ⟨rfl, hparams.good⟩⟩
    cases typeParams with
    | nil =>
      rw [signatureLexemes]
      exact endsWord_cons.2 (by decide)
    | cons f fs => exact endsWord_cons.2 (by decide)
  -- From the end to the front: each part can stand before the parts behind it.
  have hreceiver : Free (receiverLexemes erased receiver) := by
    cases receiver with
    | none => exact free_nil
    | some fs =>
      have hf : Sound (List.intercalate [.token .comma [','], .layout [' ']]
          (fieldsLexemes erased fs)) :=
        sound_fields (hr fs rfl).names fun f hf => ((hr fs rfl).types f hf).sound
      have hclose : Free (List.intercalate [.token .comma [','], .layout [' ']]
          (fieldsLexemes erased fs) ++ [.token .rparen [')']]) := hf.free rfl (by decide) rfl
      have hall := (hclose.append (free_of_isFree (l := .layout [' ']) rfl)).cons
        (l := .token .lparen ['(']) rfl
      simpa [receiverLexemes] using hall
  exact (sound_word (by decide : isWord "func" = true)).blank.before (hreceiver.before hname)

end Func

/-! ## Declarations -/

/-- Whether some lexemes are a way to write a declaration. -/
structure WritesItem (ls : List Lexeme) (item : TopLevel) : Prop where
  reads : ∃ k text ms, ls = .token k text :: ms ∧ k ≠ .semi ∧ ∀ (s : Scanner) (u : Token)
    (rest : List Token), u.kind = .semi →
    topLevel k (s.tokens ls ++ u :: rest) = .ok (item, u :: rest)
  ends : EndsLine ls

/-- Entries in parentheses, each on lines of its own. -/
def groupLexemes {α : Type} (g : α → List Lexeme) (xs : List (List Lexeme × α)) : List Lexeme :=
  .token .lparen ['('] :: .layout ['\n'] :: (linesLexemes g xs ++ [.token .rparen [')']])

section Group

variable {α : Type} {spec : Parser α} (s : Scanner) {u : Token} (rest : List Token)

theorem group_single {ls : List Lexeme} {x : α} (h : SpecReads spec ls x) (hu : u.kind = .semi) :
    group spec (s.tokens ls ++ u :: rest) = .ok ([x], u :: rest) := by
  obtain ⟨k, text, ms, hl, hk⟩ := h.first
  have hlparen : k ≠ .lparen := by
    rintro rfl
    exact absurd hk (by decide)
  have hr := h.reads s u rest (by simp [hu])
  rw [hl, Scanner.tokens_token, List.cons_append] at hr ⊢
  simp [group, hlparen, hr]

theorem group_reads {g : α → List Lexeme} {xs : List (List Lexeme × α)}
    (hpad : ∀ x ∈ xs, ∀ l ∈ x.1, l.isLayout = true)
    (h : ∀ x ∈ xs, SpecReads spec (g x.2) x.2) :
    group spec (s.tokens (groupLexemes g xs) ++ u :: rest) =
      .ok (xs.map Prod.snd, u :: rest) := by
  obtain ⟨o, c, ts, tail, hts, ho, hc, htail, hitems⟩ := enclosed_tokens (g := g)
    (by decide : Kind.lparen.endsStatement = false) ['('] [')'] hpad
    (List.forall_mem_nil fun l : Lexeme => l.isLayout = true) (fun x hx => (h x hx).ends) s
  rw [List.nil_append] at hts
  have hitems : Items .semi (EntryBefore [.semi, .rparen] spec) (xs.map Prod.snd) ts := by
    refine hitems.mono fun x hx ts hts => ?_
    obtain ⟨s, rfl⟩ := hts
    obtain ⟨y, hy, rfl⟩ := List.mem_map.1 hx
    obtain ⟨k, text, ms, hl, hk⟩ := (h y hy).first
    refine ⟨⟨s.token k text, (s.step (.token k text)).tokens ms, by rw [hl]; rfl, ?_⟩,
      (h y hy).reads s⟩
    intro hm
    exact hk (by simpa using Or.imp_right Or.inl (by simpa using hm))
  have hlist := semicolonList_items hitems (by decide) "';' or ')'" htail hc (u :: rest)
  have hall : ts ++ (tail ++ [c]) ++ u :: rest = ts ++ (tail ++ c :: u :: rest) := by simp
  rw [groupLexemes, hts, List.cons_append, hall]
  simp [group, eat_of_eq ho, hlist]

end Group

/-- The lexemes of a declaration with a keyword. -/
def declLexemes (keyword : String) (ls : List Lexeme) : List Lexeme :=
  .ofWord keyword :: .layout [' '] :: ls

/-- A declaration of entries, whatever its keyword. -/
theorem writesItem_group {α : Type} {spec : Parser α} {keyword : String} {f : List α → TopLevel}
    (htop : topLevel (Kind.ofWord keyword) = (do advance; return f (← group spec)))
    (hk : Kind.ofWord keyword ≠ .semi) {ls : List Lexeme} {xs : List α}
    (hg : ∀ (s : Scanner) (u : Token) (rest : List Token), u.kind = .semi →
      group spec (s.tokens ls ++ u :: rest) = .ok (xs, u :: rest)) (hends : EndsLine ls) :
    WritesItem (declLexemes keyword ls) (f xs) where
  reads := by
    refine ⟨_, _, _, rfl, hk, fun s u rest hu => ?_⟩
    have hr := hg ((s.step (.ofWord keyword)).step (.layout [' '])) u rest hu
    rw [declLexemes, Scanner.tokens_ofWord, Scanner.tokens_blank, List.cons_append, htop]
    simp [hr]
  ends := (hends.cons _).cons _

section Items

variable {ls : List Lexeme}

theorem writesItem_imports {is : List Import}
    (hg : ∀ (s : Scanner) (u : Token) (rest : List Token), u.kind = .semi →
      group importSpec (s.tokens ls ++ u :: rest) = .ok (is, u :: rest)) (hends : EndsLine ls) :
    WritesItem (declLexemes "import" ls) (.imports is) :=
  writesItem_group rfl (by decide) hg hends

theorem writesItem_const {specs : List ValueSpec}
    (hg : ∀ (s : Scanner) (u : Token) (rest : List Token), u.kind = .semi →
      group valueSpec (s.tokens ls ++ u :: rest) = .ok (specs, u :: rest)) (hends : EndsLine ls) :
    WritesItem (declLexemes "const" ls) (.decl (.const specs)) :=
  writesItem_group (f := fun specs => .decl (.const specs)) rfl (by decide) hg hends

theorem writesItem_var {specs : List ValueSpec}
    (hg : ∀ (s : Scanner) (u : Token) (rest : List Token), u.kind = .semi →
      group valueSpec (s.tokens ls ++ u :: rest) = .ok (specs, u :: rest)) (hends : EndsLine ls) :
    WritesItem (declLexemes "var" ls) (.decl (.var specs)) :=
  writesItem_group (f := fun specs => .decl (.var specs)) rfl (by decide) hg hends

theorem writesItem_type {specs : List TypeSpec}
    (hg : ∀ (s : Scanner) (u : Token) (rest : List Token), u.kind = .semi →
      group typeSpec (s.tokens ls ++ u :: rest) = .ok (specs, u :: rest)) (hends : EndsLine ls) :
    WritesItem (declLexemes "type" ls) (.decl (.type specs)) :=
  writesItem_group (f := fun specs => .decl (.type specs)) rfl (by decide) hg hends

theorem sound_decl {keyword : String} (hw : isWord keyword = true) (h : Sound ls) :
    Sound (declLexemes keyword ls) :=
  (sound_word hw).blank.before h

end Items

theorem writesItem_func {erased : Bool} {receiver : Option (List FieldGroup)}
    (hr : ∀ fs ∈ receiver, IsParams Leaf.ReadsBack erased fs) {name : String}
    (hn : IsToken .ident name) {sig : Signature}
    (hp : ∀ f ∈ sig.typeParams, IsTypeParam Leaf.ReadsBack erased f)
    (hs : IsSignatureOf Leaf.ReadsBack erased (IsType Leaf.ReadsBack erased)
      (.mk [] sig.params sig.results)) {inner : Option (List Lexeme)}
    (hb : ∀ ls ∈ inner, Balanced ls) (hg : ∀ ls ∈ inner, ∀ l ∈ ls, l.isBad = false) :
    WritesItem (funcLexemes erased receiver name sig inner)
      (.decl (.func ⟨receiver, name, sig,
        inner.map fun ls => String.ofList (spellLexemes ls)⟩)) where
  reads := by
    refine ⟨.kwFunc, _, _, rfl, by decide, fun s u rest hu => ?_⟩
    rw [topLevel, bind_apply, funcDecl_reads s rest hr hn hp hs hb hg hu]
    rfl
  ends := by
    obtain ⟨typeParams, ps, rs⟩ := sig
    have hends : EndsLine (signatureLexemes erased (.mk [] ps rs)) :=
      endsLine_signature fun f hf => ((hs.fields f hf).mono fun _ h => h.endsLine).endsLine
    have hsig : EndsLine (signatureLexemes erased (.mk typeParams ps rs)) := by
      rw [signatureLexemes] at hends ⊢
      exact hends
    exact endsLine_func hsig inner

/-! ## Files -/

/-- Line ends, at least one. -/
def newlines (k : Nat) : List Lexeme := .layout ['\n'] :: List.replicate k (.layout ['\n'])

/-- Declarations with line ends behind each. -/
def itemsLexemes (items : List (List Lexeme × Nat)) : List Lexeme :=
  items.flatMap fun (ls, k) => ls ++ newlines k

/-- A package clause and declarations. -/
def fileLexemes (package : String) (k : Nat) (items : List (List Lexeme × Nat)) : List Lexeme :=
  .ofWord "package" :: .layout [' '] :: .ofWord package :: (newlines k ++ itemsLexemes items)

theorem itemsLexemes_cons (ls : List Lexeme) (k : Nat) (items : List (List Lexeme × Nat)) :
    itemsLexemes ((ls, k) :: items) = ls ++ (newlines k ++ itemsLexemes items) := by
  simp [itemsLexemes]

theorem Sound.newlines {ls : List Lexeme} (h : Sound ls) (k : Nat) : Free (ls ++ newlines k) := by
  have hrest : Free (List.replicate k (.layout ['\n'])) := by
    induction k with
    | zero => exact free_nil
    | succ k ih => exact ih.cons rfl
  have hall := h.newline.append hrest
  rwa [List.append_assoc, List.singleton_append] at hall

theorem free_items {items : List (List Lexeme × Nat)} (h : ∀ i ∈ items, Sound i.1) :
    Free (itemsLexemes items) := by
  induction items with
  | nil => exact free_nil
  | cons i items ih =>
    obtain ⟨hi, h⟩ := List.forall_mem_cons.1 h
    have hall := (hi.newlines i.2).append (ih h)
    rwa [List.append_assoc, ← itemsLexemes_cons] at hall

theorem free_file {package : String} (hp : isWord package = true) (k : Nat)
    {items : List (List Lexeme × Nat)} (h : ∀ i ∈ items, Sound i.1) :
    Free (fileLexemes package k items) := by
  have hword : isWord "package" = true := by decide
  have hall := ((sound_word hword).blank.append ((sound_word hp).newlines k)).append (free_items h)
  simpa [fileLexemes] using hall

/-- Behind a statement, line ends are one semicolon. -/
theorem Scanner.tokens_newlines (s : Scanner) {ls : List Lexeme} (h : EndsLine ls) (k : Nat)
    (ms : List Lexeme) :
    ∃ (t : Token) (s' : Scanner), s.tokens (ls ++ (newlines k ++ ms)) =
      s.tokens ls ++ t :: s'.tokens ms ∧ t.kind = .semi ∧ s'.pending = false ∧
        (s.after (ls ++ (newlines k ++ ms))) = s'.after ms := by
  have hlayout : ∀ l ∈ List.replicate k (Lexeme.layout ['\n']), l.isLayout = true := by
    intro l hl
    rw [List.eq_of_mem_replicate hl]
    rfl
  have hin := Scanner.tokens_indent ((s.after ls).pending_lineEnd) hlayout ms
  refine ⟨(s.after ls).lineEnd, _, ?_, rfl, hin.2, ?_⟩
  · rw [newlines, List.cons_append, s.tokens_lineEnd h, hin.1]
  · rw [newlines, List.cons_append, Scanner.after_append, Scanner.after_cons,
      Scanner.after_append]

theorem topLevelsLoop_reads {items : List ((List Lexeme × TopLevel) × Nat)}
    (h : ∀ i ∈ items, WritesItem i.1.1 i.1.2) {s : Scanner} (hs : s.pending = false) {n : Nat}
    (hn : (s.tokens (itemsLexemes (items.map fun i => (i.1.1, i.2)))).length < n) :
    topLevelsLoop n (s.tokens (itemsLexemes (items.map fun i => (i.1.1, i.2)))) =
        .ok (items.map fun i => i.1.2, []) ∧
      (s.after (itemsLexemes (items.map fun i => (i.1.1, i.2)))).pending = false := by
  induction items generalizing s n with
  | nil =>
    obtain ⟨n, rfl⟩ := Nat.exists_eq_add_one.2 hn
    exact ⟨by simp [topLevelsLoop, itemsLexemes, peek], hs⟩
  | cons i items ih =>
    obtain ⟨⟨ls, item⟩, k⟩ := i
    obtain ⟨hi, h⟩ := List.forall_mem_cons.1 h
    obtain ⟨kind, text, ms, hl, hk, hread⟩ := hi.reads
    obtain ⟨t, s', hts, ht, hs', hafter⟩ := s.tokens_newlines hi.ends k
      (itemsLexemes (items.map fun i => (i.1.1, i.2)))
    rw [List.map_cons, itemsLexemes_cons, hts] at hn ⊢
    rw [hafter]
    have hread := hread s t (s'.tokens (itemsLexemes (items.map fun i => (i.1.1, i.2)))) ht
    obtain ⟨n, rfl⟩ := Nat.exists_eq_add_one.2 (Nat.zero_lt_of_lt hn)
    have ih := @ih h s' hs' n (by simp at hn; omega)
    refine ⟨?_, ih.2⟩
    have hl : ls = .token kind text :: ms := hl
    rw [hl, Scanner.tokens_token, List.cons_append] at hread ⊢
    have hend : ∀ rest, endOfDecl (t :: rest) = .ok ((), rest) := by
      intro rest
      simp [endOfDecl, eat_of_eq ht]
    simp [topLevelsLoop, hread, hend, ih.1]

/-- **A file whose declarations are read back is read back.** -/
theorem parse_fileLexemes {package : String} (hp : IsToken .ident package) (k : Nat)
    {items : List ((List Lexeme × TopLevel) × Nat)} (hw : ∀ i ∈ items, WritesItem i.1.1 i.1.2)
    (hs : ∀ i ∈ items, Sound i.1.1) {text : String}
    (ht : text.toList = spellLexemes (fileLexemes package k (items.map fun i => (i.1.1, i.2)))) :
    SourceFile.parse text = .ok {
      package
      imports := importsOf (items.map fun i => i.1.2)
      decls := declsOf (items.map fun i => i.1.2)
      isGenerated := false } := by
  obtain ⟨hword, hk⟩ := isToken_ident_iff.1 hp
  have hsound : ∀ i ∈ items.map fun i => (i.1.1, i.2), Sound i.1 := by
    intro i hi
    obtain ⟨j, hj, rfl⟩ := List.mem_map.1 hi
    exact hs j hj
  have htokens := (free_file hword k hsound).tokenize ht
  rw [Scanner.tokensToEnd] at htokens
  have hpackage : EndsLine [.ofWord "package", .layout [' '], .ofWord package] :=
    ((endsLine_name hp).cons _).cons _
  obtain ⟨t, s', hts, htk, hs', hafter⟩ := Scanner.start.tokens_newlines hpackage k
    (itemsLexemes (items.map fun i => (i.1.1, i.2)))
  have hread := topLevelsLoop_reads hw hs' (Nat.lt_succ_self _)
  -- Every declaration ends its line, so no statement is left open at the end of the text.
  have hfinish : (Scanner.start.after (fileLexemes package k
      (items.map fun i => (i.1.1, i.2)))).finish = [] := by
    have hpending : (Scanner.start.after (fileLexemes package k
        (items.map fun i => (i.1.1, i.2)))).pending = false := by
      rw [← hread.2, ← hafter]
      rfl
    rw [Scanner.finish, hpending]
    rfl
  have hall : Scanner.start.tokens (fileLexemes package k (items.map fun i => (i.1.1, i.2))) = _ :=
    hts
  rw [hfinish, List.append_nil, hall] at htokens
  have hend : ∀ rest, endOfDecl (t :: rest) = .ok ((), rest) := by
    intro rest
    simp [endOfDecl, eat_of_eq htk]
  have hfile : file (Scanner.start.tokens [.ofWord "package", .layout [' '], .ofWord package] ++
      t :: s'.tokens (itemsLexemes (items.map fun i => (i.1.1, i.2)))) =
      .ok (⟨package, importsOf (items.map fun i => i.1.2), declsOf (items.map fun i => i.1.2),
        false⟩, []) := by
    have hheader : isGeneratedHeader "" = false := by decide
    have hkind : Kind.ofWord "package" = .kwPackage := by decide
    simp [file, hkind, hk, hend, hread.1, Scanner.start, hheader]
  rw [SourceFile.parse, htokens]
  simp only [bind, Except.bind, hfile]
  rfl

end Understudy.Source

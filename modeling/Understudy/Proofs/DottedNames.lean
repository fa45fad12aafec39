import Understudy.Proofs.FileShape

/-!
# Names before dots

What a text refers to in other packages are names directly before a dot. Nothing else of a type is
written that way, so the names before dots in the text of a type are the packages among its leaves,
and whatever its lengths have of them:

> **the names before dots in a type are those of its leaves** (`IsType.refers`).

This holds in whatever way the type is written. Line ends, blanks and the parentheses around results
make no difference, and so two texts of one declaration have the same names before dots.
-/

set_option autoImplicit false

namespace Understudy.Source

/-! ## Tokens -/

namespace Token

/-- The names directly before a dot that are not themselves behind one; `behindDot` says that the
token before is a dot. -/
def namesBeforeDots (behindDot : Bool) : List Token → List String
  | [] => []
  | t :: ts =>
    let later := namesBeforeDots (t.kind == .dot) ts
    if t.kind == .ident && ts.head?.map Token.kind == some .dot && !behindDot then t.text :: later
    else later

variable {t u : Token} {ts us vs : List Token}

/-- A token that is no dot, and before none if it is a name, changes nothing. -/
theorem namesBeforeDots_cons (ht : t.kind ≠ .dot)
    (hn : t.kind = .ident → ∀ u ∈ ts.head?, u.kind ≠ .dot) (b : Bool) :
    namesBeforeDots b (t :: ts) = namesBeforeDots false ts := by
  have hdot : (t.kind == .dot) = false := by simpa using ht
  rw [namesBeforeDots, hdot]
  split
  · next h =>
    simp only [Bool.and_eq_true, beq_iff_eq, Option.map_eq_some_iff] at h
    obtain ⟨⟨hk, u, hu, hd⟩, -⟩ := h
    exact absurd hd (hn hk u hu)
  · rfl

/-- A name behind a dot is not counted. -/
theorem namesBeforeDots_behind (ht : t.kind ≠ .dot) :
    namesBeforeDots true (t :: ts) = namesBeforeDots false ts := by
  have hdot : (t.kind == .dot) = false := by simpa using ht
  simp [namesBeforeDots, hdot]

theorem namesBeforeDots_dot (ht : t.kind = .dot) (b : Bool) :
    namesBeforeDots b (t :: ts) = namesBeforeDots true ts := by
  simp [namesBeforeDots, ht]

theorem namesBeforeDots_qualified (ht : t.kind = .ident) (hu : u.kind = .dot) :
    namesBeforeDots false (t :: u :: ts) = t.text :: namesBeforeDots true ts := by
  rw [namesBeforeDots, namesBeforeDots_dot hu]
  simp [ht, hu]

/-- Any other token parts the names before it from those behind it. -/
theorem namesBeforeDots_append (ht : t.kind ∉ [.ident, .dot]) (b : Bool) :
    namesBeforeDots b (us ++ t :: ts) = namesBeforeDots b us ++ namesBeforeDots false ts := by
  simp only [List.mem_cons, List.not_mem_nil, or_false, not_or] at ht
  induction us generalizing b with
  | nil => exact namesBeforeDots_cons ht.2 (fun hk => absurd hk ht.1) b
  | cons u us ih =>
    have hhead : ((us ++ t :: ts).head?.map Token.kind == some .dot) =
        (us.head?.map Token.kind == some .dot) := by
      cases us with
      | nil => simpa using ht.2
      | cons v us => rfl
    rw [List.cons_append, namesBeforeDots, namesBeforeDots, ih, hhead]
    split <;> rfl

/-- A last token that is no dot is before none. -/
theorem namesBeforeDots_concat (ht : t.kind ≠ .dot) (b : Bool) :
    namesBeforeDots b (us ++ [t]) = namesBeforeDots b us := by
  induction us generalizing b with
  | nil => exact namesBeforeDots_cons ht (by simp) b
  | cons u us ih =>
    have hhead : ((us ++ [t]).head?.map Token.kind == some .dot) =
        (us.head?.map Token.kind == some .dot) := by
      cases us with
      | nil => simpa using ht
      | cons v us => rfl
    rw [List.cons_append, namesBeforeDots, namesBeforeDots, ih, hhead]

/-- Line ends behind some tokens do not matter. -/
theorem namesBeforeDots_ends (h : ∀ t ∈ vs, t.kind = .semi) (b : Bool) :
    namesBeforeDots b (us ++ vs) = namesBeforeDots b us := by
  induction vs using List.reverseRecOn with
  | nil => rw [List.append_nil]
  | append_singleton vs t ih =>
    obtain ⟨hvs, ht⟩ := List.forall_mem_append.1 h
    have hsemi : t.kind ≠ .dot := by simp [ht t List.mem_cons_self]
    rw [← List.append_assoc, namesBeforeDots_concat hsemi, ih hvs]

/-- Whether two tokens have the same kind and, if they are names, the same text. -/
def SameName (t u : Token) : Prop := t.kind = u.kind ∧ (t.kind = .ident → t.text = u.text)

theorem namesBeforeDots_congr (h : List.Forall₂ SameName us vs) (b : Bool) :
    namesBeforeDots b us = namesBeforeDots b vs := by
  induction h generalizing b with
  | nil => rfl
  | @cons u v us vs huv hrest ih =>
    obtain ⟨hkind, htext⟩ := huv
    have hhead : us.head?.map Token.kind = vs.head?.map Token.kind := by
      cases hrest with
      | nil => rfl
      | cons h _ => exact congrArg some h.1
    rw [namesBeforeDots, namesBeforeDots, ih, hhead, hkind]
    split
    · next hname =>
      simp only [Bool.and_eq_true, beq_iff_eq] at hname
      rw [htext (hkind.trans hname.1.1)]
    · rfl

/-- The places of the tokens do not matter. -/
theorem namesBeforeDots_face (h : us.map face = vs.map face) (b : Bool) :
    namesBeforeDots b us = namesBeforeDots b vs := by
  have hsame : List.Forall₂ (fun t u => face t = face u) us vs :=
    List.forall₂_map_left_iff.1 (List.forall₂_map_right_iff.1 (List.forall₂_eq_eq_eq ▸ h))
  exact namesBeforeDots_congr (hsame.imp fun _ _ h => ⟨congrArg Prod.fst h, fun _ =>
    congrArg Prod.snd h⟩) b

end Token

open Token Understudy.Source.Parser

/-! ## Lexemes -/

/-- Layout in front of some tokens does not matter. -/
theorem namesBeforeDots_emit (s : Scanner) {l : Lexeme} (h : l.isLayout = true) (ts : List Token) :
    namesBeforeDots false (s.emit l ++ ts) = namesBeforeDots false ts := by
  generalize hv : s.emit l = vs
  have hsemi : ∀ t ∈ vs, t.kind = .semi := by
    rw [← hv]
    exact s.emit_layout h
  clear hv
  induction vs with
  | nil => rfl
  | cons t vs ih =>
    obtain ⟨ht, hvs⟩ := List.forall_mem_cons.1 hsemi
    exact (namesBeforeDots_cons (by simp [ht]) (by simp [ht]) _).trans (ih hvs)

/-- The names before dots among some lexemes. -/
def lexemeNames (ls : List Lexeme) : List String :=
  namesBeforeDots false (Scanner.start.tokens ls)

section LexemeNames

variable {ls gap : List Lexeme}

/-- It does not matter in which state the lexemes are read. -/
theorem namesBeforeDots_tokens (s : Scanner) :
    namesBeforeDots false (s.tokens ls) = lexemeNames ls := by
  unfold lexemeNames
  generalize Scanner.start = s'
  induction ls generalizing s s' with
  | nil => rfl
  | cons l ls ih =>
    cases l with
    | layout text =>
      rw [Scanner.tokens, Scanner.tokens, namesBeforeDots_emit s rfl, namesBeforeDots_emit s' rfl]
      exact ih _ _
    | token kind text =>
      have hface : ((s.step (.token kind text)).tokens ls).map Token.face =
          ((s'.step (.token kind text)).tokens ls).map Token.face :=
        Scanner.face_tokens (by rfl) ls
      refine namesBeforeDots_face ?_ false
      rw [Scanner.tokens_token, Scanner.tokens_token, List.map_cons, List.map_cons, hface]
      rfl
    | bad text => exact ih _ _

theorem lexemeNames_layout (h : ∀ l ∈ gap, l.isLayout = true) :
    lexemeNames (gap ++ ls) = lexemeNames ls := by
  induction gap with
  | nil => rfl
  | cons l gap ih =>
    obtain ⟨hl, h⟩ := List.forall_mem_cons.1 h
    rw [List.cons_append, lexemeNames, Scanner.tokens, namesBeforeDots_emit _ hl,
      namesBeforeDots_tokens, ih h]

theorem lexemeNames_append_layout (h : ∀ l ∈ gap, l.isLayout = true) :
    lexemeNames (ls ++ gap) = lexemeNames ls := by
  rw [lexemeNames, Scanner.tokens_append, namesBeforeDots_ends (Scanner.tokens_layout _ h)]
  rfl

end LexemeNames

/-! ## Leaves -/

/-- The names before dots that a leaf is written with. -/
def Leaf.references : Leaf → List String
  | .qualifier package => [package]
  | .length text => lexemeNames (lexemes text.toList)
  | .name _ | .arity _ | .entry | .unsupported _ => []

/-- The names before dots that some leaves are written with. -/
def references (leaves : List Leaf) : List String := leaves.flatMap Leaf.references

theorem references_append (xs ys : List Leaf) :
    references (xs ++ ys) = references xs ++ references ys := List.flatMap_append

/-- Whether the names before dots among some lexemes are those of some leaves, whatever stands
before and behind. -/
def Refers (ls : List Lexeme) (leaves : List Leaf) : Prop :=
  ∀ (s : Scanner) (rest : List Token), (∀ t ∈ rest.head?, t.kind ≠ .dot) →
    (∀ t ∈ (s.tokens ls ++ rest).head?, t.kind ≠ .dot) ∧
      namesBeforeDots false (s.tokens ls ++ rest) = references leaves ++ namesBeforeDots false rest

namespace Refers

variable {ls ms : List Lexeme} {xs ys : List Leaf}

theorem nil : Refers [] [] := fun _ _ h => ⟨h, rfl⟩

theorem append (hl : Refers ls xs) (hm : Refers ms ys) : Refers (ls ++ ms) (xs ++ ys) := by
  intro s rest hrest
  obtain ⟨hhead, hnames⟩ := hm (s.after ls) rest hrest
  obtain ⟨hfirst, hall⟩ := hl s _ hhead
  rw [Scanner.tokens_append, List.append_assoc, references_append, List.append_assoc, ← hnames]
  exact ⟨hfirst, hall⟩

theorem layout (text : List Char) (h : Refers ls xs) : Refers (.layout text :: ls) xs := by
  intro s rest hrest
  obtain ⟨hhead, hnames⟩ := h (s.step (.layout text)) rest hrest
  rw [Scanner.tokens, List.append_assoc, namesBeforeDots_emit s rfl]
  refine ⟨?_, hnames⟩
  rw [Scanner.emit]
  split
  · intro t ht
    cases ht
    exact fun hk => by cases hk
  · exact hhead

theorem token {k : Kind} (hk : k ≠ .dot) (text : List Char) (h : Refers ls xs) :
    Refers (.token k text :: ls) xs := by
  intro s rest hrest
  obtain ⟨hhead, hnames⟩ := h (s.step (.token k text)) rest hrest
  refine ⟨fun t ht => ?_, ?_⟩
  · cases ht
    exact hk
  · exact (namesBeforeDots_cons (t := s.token k text) hk (fun _ => hhead) _).trans hnames

theorem word (w : String) (h : Refers ls xs) : Refers (.ofWord w :: ls) xs :=
  h.token (Kind.ofWord_ne_dot w) _

/-- A reference to a package. -/
theorem qualified {package : String} (hp : Kind.ofWord package = .ident) (name : String) :
    Refers [.ofWord package, .token .dot ['.'], .ofWord name]
      [.qualifier package, .name name] := by
  intro s rest hrest
  rw [Scanner.tokens_ofWord, Scanner.tokens_token, Scanner.tokens_ofWord, Scanner.tokens_nil,
    List.cons_append, List.cons_append, List.cons_append, List.nil_append]
  refine ⟨fun t ht => ?_, ?_⟩
  · cases ht
    exact Kind.ofWord_ne_dot package
  · rw [namesBeforeDots_qualified hp rfl, namesBeforeDots_behind (Kind.ofWord_ne_dot name)]
    simp [references, Leaf.references]

/-- The length of an array, whatever it is. -/
theorem length (text : String) (h : Refers ls xs) :
    Refers (.token .lbrack ['['] :: (lexemes text.toList ++ .token .rbrack [']'] :: ls))
      (.length text :: xs) := by
  intro s rest hrest
  obtain ⟨-, hnames⟩ := h (((s.step (.token .lbrack ['['])).after (lexemes text.toList)).step
    (.token .rbrack [']'])) rest hrest
  rw [Scanner.tokens_token, Scanner.tokens_append, Scanner.tokens_token, List.cons_append,
    List.append_assoc, List.cons_append]
  refine ⟨fun t ht => ?_, ?_⟩
  · cases ht
    exact fun hk => by cases hk
  · rw [namesBeforeDots_cons (fun hk => by cases hk) (fun hk => by cases hk),
      namesBeforeDots_append (by simp), hnames, namesBeforeDots_tokens, ← List.append_assoc]
    rfl

theorem bracket {op cl : Lexeme} (hb : (op, cl) ∈ brackets) (hl : Refers ls xs)
    (hm : Refers ms ys) : Refers (op :: (ls ++ cl :: ms)) (xs ++ ys) := by
  simp only [brackets, List.mem_cons, Prod.mk.injEq, List.not_mem_nil, or_false] at hb
  rcases hb with ⟨rfl, rfl⟩ | ⟨rfl, rfl⟩ | ⟨rfl, rfl⟩ <;>
  exact .token (by decide) _ (hl.append (.token (by decide) _ hm))

/-- A bracket with nothing behind its partner. -/
theorem enclosed {op cl : Lexeme} (hb : (op, cl) ∈ brackets) (h : Refers ls xs) :
    Refers (op :: (ls ++ [cl])) xs := by
  have hall := bracket hb h .nil
  rwa [List.append_nil] at hall

section Lists

variable {α : Type} {g : α → List Lexeme} {f : α → List Leaf} {as : List α}

theorem intercalate {between : List Lexeme} (hb : Refers between [])
    (h : ∀ a ∈ as, Refers (g a) (f a)) :
    Refers (List.intercalate between (as.map g)) (as.flatMap f) := by
  induction as with
  | nil => exact .nil
  | cons a as ih =>
    obtain ⟨ha, hrest⟩ := List.forall_mem_cons.1 h
    cases as with
    | nil => simpa using ha
    | cons b as =>
      rw [List.map_cons, List.map_cons, List.intercalate_cons_cons, List.append_assoc]
      exact ha.append (hb.append (ih hrest))

theorem separated {k : Kind} (hk : k ≠ .dot) (text : List Char)
    (h : ∀ a ∈ as, Refers (g a) (f a)) :
    Refers (List.intercalate [.token k text, .layout [' ']] (as.map g)) (as.flatMap f) :=
  intercalate (.token hk _ (.layout _ .nil)) h

/-- Some entries on lines of their own. -/
theorem lines {pad : α → List Lexeme} (hp : ∀ a ∈ as, Refers (pad a) [])
    (h : ∀ a ∈ as, Refers (g a) (f a)) :
    Refers (linesLexemes g (as.map fun a => (pad a, a))) (as.flatMap f) := by
  induction as with
  | nil => exact .nil
  | cons a as ih =>
    obtain ⟨hpad, hpads⟩ := List.forall_mem_cons.1 hp
    obtain ⟨ha, hrest⟩ := List.forall_mem_cons.1 h
    rw [List.map_cons, linesLexemes_cons]
    exact hpad.append (ha.append (.layout _ (ih hpads hrest)))

theorem block {keyword : String} (h : ∀ a ∈ as, Refers (g a) (f a)) :
    Refers (blockLexemes [] keyword g as) (as.flatMap f) := by
  have hlines : Refers (linesLexemes g (as.map fun a => ([] ++ [.layout ['\t']], a)))
      (as.flatMap f) := lines (fun _ _ => .layout _ .nil) h
  have hpair : (Lexeme.token .lbrace ['{'], Lexeme.token .rbrace ['}']) ∈ brackets := by decide
  exact .word _ (.layout _ (enclosed hpair (.layout ['\n'] hlines)))

end Lists

theorem names (names : List String) : Refers (namesLexemes names) (names.map .name) := by
  have h : Refers (namesLexemes names) (names.flatMap fun n => [.name n]) :=
    separated (by decide) _ fun n _ => .word n .nil
  rwa [← List.map_eq_flatMap] at h

/-- Names and a type, with any number of blanks between them. -/
theorem padded (k : Nat) {f : FieldGroup} (h : Refers ls f.type.leaves) :
    Refers (paddedLexemes k f.names ls) f.leaves := by
  have hblanks : ∀ k, Refers (List.replicate k (.layout [' '])) [] := by
    intro k
    induction k with
    | zero => exact .nil
    | succ k ih => exact .layout _ ih
  unfold paddedLexemes
  split
  · next hnil =>
    rw [FieldGroup.leaves, List.isEmpty_iff.1 hnil]
    exact h
  · exact (names _).append ((hblanks k).append h)

end Refers

/-! ## Types -/

section Types

variable {erased shape : Bool}

/-- Whether a type is written with the names before dots that its leaves have. -/
def TypeExpr.Refers (erased : Bool) (t : TypeExpr) : Prop :=
  Source.Refers (typeLexemes erased t) t.leaves

theorem refers_field {fs : List FieldGroup} (h : ∀ f ∈ fs, f.type.Refers erased) :
    ∀ f ∈ fs, Refers (fieldLexemes f.names (typeLexemes erased f.type)) f.leaves := by
  intro f hf
  rw [← paddedLexemes_one]
  exact .padded 1 (h f hf)

theorem refers_fields {fs : List FieldGroup} (h : ∀ f ∈ fs, f.type.Refers erased) :
    Refers (List.intercalate [.token .comma [','], .layout [' ']] (fieldsLexemes erased fs))
      (fieldsLeaves fs) := by
  rw [fieldsLexemes_eq, fieldsLeaves_eq]
  exact .separated (by decide) _ (refers_field h)

theorem refers_types {ts : List TypeExpr} (h : ∀ t ∈ ts, t.Refers erased) :
    Refers (List.intercalate [.token .comma [','], .layout [' ']] (typesLexemes erased ts))
      (typesLeaves ts) := by
  rw [typesLexemes_eq, typesLeaves_eq]
  exact .separated (by decide) _ h

theorem refers_results {results : Option (List FieldGroup)}
    (h : ∀ f ∈ results.getD [], f.type.Refers erased) :
    Refers (resultsLexemes erased results) (resultsLeaves results) := by
  match results, h with
  | none, _ => exact .nil
  | some [], _ =>
    rw [resultsLexemes]
    split
    · exact .layout _ (.token (by decide) _ (.token (by decide) _ .nil))
    · exact .nil
  | some (.mk names type :: fields), h =>
    have h : ∀ f ∈ FieldGroup.mk names type :: fields, f.type.Refers erased := h
    rw [resultsLexemes]
    split
    · next hplain =>
      simp only [Bool.and_eq_true, List.isEmpty_iff] at hplain
      obtain ⟨⟨-, rfl⟩, rfl⟩ := hplain
      have ht : type.Refers erased := h (.mk [] type) List.mem_cons_self
      rw [resultsLeaves, fieldsLeaves, fieldsLeaves, List.append_nil]
      exact .layout _ ht
    · have hparams := refers_fields h
      rw [fieldsLexemes] at hparams
      exact .layout _ (.enclosed (by decide) hparams)

/-- The type parameters do not stand in the text of a signature. -/
theorem refers_signature {typeParams params : List FieldGroup} {results : Option (List FieldGroup)}
    (h : ∀ f ∈ (Signature.mk typeParams params results).fields, f.type.Refers erased) :
    Refers (signatureLexemes erased (.mk typeParams params results))
      (fieldsLeaves params ++ resultsLeaves results) := by
  simp only [Signature.fields, List.mem_append] at h
  rw [signatureLexemes]
  exact .bracket (by decide) (refers_fields fun f hf => h f (Or.inl (Or.inr hf)))
    (refers_results fun f hf => h f (Or.inr hf))

theorem IsParamOf.refers {t : TypeExpr} (h : IsParamOf (TypeExpr.Refers erased) t) :
    t.Refers erased := by
  cases h with
  | type h => exact h
  | variadic h =>
    rw [TypeExpr.Refers, typeLexemes]
    exact .token (by decide) _ h

theorem IsSignatureOf.refers {s : Signature}
    (h : IsSignatureOf Leaf.ReadsBack shape (TypeExpr.Refers erased) s) :
    Refers (signatureLexemes erased s) s.leaves := by
  have hfields := fun f hf => (h.fields f hf).refers
  cases h <;> exact refers_signature hfields

theorem IsTermOf.refers {t : TypeExpr} (h : IsTermOf (TypeExpr.Refers erased) t) :
    t.Refers erased := by
  cases h with
  | type h => exact h
  | tilde h =>
    rw [TypeExpr.Refers, typeLexemes]
    exact .token (by decide) _ h

theorem IsConstraintOf.refers {t : TypeExpr} (h : IsConstraintOf (TypeExpr.Refers erased) t) :
    t.Refers erased := by
  cases h with
  | term h => exact h.refers
  | union _ h =>
    rw [TypeExpr.Refers, typeLexemes, TypeExpr.leaves, typesLexemes_eq, typesLeaves_eq]
    exact .intercalate (.layout _ (.token (by decide) _ (.layout _ .nil)))
      fun t ht => (h t ht).refers

theorem IsElemOf.refers {e : InterfaceElem}
    (h : IsElemOf Leaf.ReadsBack shape (TypeExpr.Refers erased) e) :
    Refers (elemLexemes erased e) (elemsLeaves [e]) := by
  cases h with
  | method _ h =>
    rw [elemsLeaves, elemsLeaves, List.append_nil]
    exact .word _ h.refers
  | embedded h =>
    rw [elemsLeaves, elemsLeaves, List.append_nil]
    exact h.refers
  | entry h => exact h.elim

/-- The entries of a struct or interface on one line. -/
theorem refers_braces {α : Type} {g : α → List Lexeme} {f : α → List Leaf} {as : List α}
    (h : ∀ a ∈ as, Refers (g a) (f a)) :
    Refers (.token .lbrace ['{'] :: .layout [' '] ::
      (List.intercalate [.token .semi [';'], .layout [' ']] (as.map g) ++
        [.layout [' '], .token .rbrace ['}']])) (as.flatMap f) := by
  have hentries := (Refers.separated (k := .semi) (by decide) [';'] h).append (.layout [' '] .nil)
  have hpair : (Lexeme.token .lbrace ['{'], Lexeme.token .rbrace ['}']) ∈ brackets := by decide
  have hb := Refers.enclosed hpair (.layout [' '] hentries)
  simpa using hb

/-- **The names before dots in a type are those of its leaves.** -/
theorem IsType.refers {t : TypeExpr} (h : IsType Leaf.ReadsBack shape t) : t.Refers erased := by
  -- One case for each constructor, along its lexemes: only a qualified name has a dot behind it.
  induction h with
  | ident _ =>
    rw [TypeExpr.Refers, typeLexemes]
    exact .word _ .nil
  | qualified hp _ =>
    rw [TypeExpr.Refers, typeLexemes]
    exact .qualified (isToken_ident_iff.1 hp).2 _
  | pointer _ ih =>
    rw [TypeExpr.Refers, typeLexemes]
    exact .token (by decide) _ ih
  | slice _ ih =>
    rw [TypeExpr.Refers, typeLexemes, lengthLexemes]
    exact .bracket (by decide) .nil ih
  | array _ _ ih =>
    rw [TypeExpr.Refers, typeLexemes, lengthLexemes, typeLexemes]
    exact .length _ ih
  | func _ hs =>
    rw [TypeExpr.Refers, typeLexemes]
    exact .word _ (hs.mono fun _ h => h.2).refers
  | map _ _ ihk ihv =>
    rw [TypeExpr.Refers, typeLexemes]
    exact .word _ (.bracket (by decide) ihk ihv)
  | @chan dir elem _ ih =>
    rw [TypeExpr.Refers]
    cases dir with
    | send =>
      rw [typeLexemes]
      exact .word _ (.token (by decide) _ (.layout _ ih))
    | recv =>
      rw [typeLexemes]
      exact .token (by decide) _ (.word _ (.layout _ ih))
    | both =>
      rw [typeLexemes]
      split
      · exact .word _ (.layout _ (.enclosed (by decide) ih))
      · exact .word _ (.layout _ ih)
  | @struct fields _ _ hf =>
    have hfields := refers_field fun f hm => (hf f hm).2
    rw [TypeExpr.Refers]
    cases fields with
    | nil =>
      rw [typeLexemes]
      exact .word _ (.token (by decide) _ (.token (by decide) _ .nil))
    | cons f fs =>
      rw [typeLexemes, TypeExpr.leaves, fieldsLexemes_eq, fieldsLeaves_eq]
      exact .word _ (refers_braces hfields)
  | @interface elems _ he =>
    have helems := fun e hm => ((he e hm).mono fun _ h => h.2).refers
    rw [TypeExpr.Refers]
    cases elems with
    | nil =>
      rw [typeLexemes]
      exact .word _ (.token (by decide) _ (.token (by decide) _ .nil))
    | cons e es =>
      rw [typeLexemes, TypeExpr.leaves, elemsLexemes_eq, elemsLeaves_eq]
      exact .word _ (refers_braces helems)
  | generic _ _ _ ha =>
    rw [TypeExpr.Refers, typeLexemes, typeLexemes]
    exact .word _ (.enclosed (by decide) (refers_types fun a hm => (ha a hm).2))
  | qualifiedGeneric _ hp _ _ ha =>
    rw [TypeExpr.Refers, typeLexemes, typeLexemes]
    exact (Refers.qualified (isToken_ident_iff.1 hp).2 _).append
      (.enclosed (by decide) (refers_types fun a hm => (ha a hm).2))
  | unsupported hu => exact hu.elim

end Types

/-! ## Declarations -/

section Declarations

variable {erased shape : Bool}

theorem IsType.refers_declared {align : List FieldGroup → List (Nat × FieldGroup)}
    (ha : ∀ fs, (align fs).map Prod.snd = fs) {t : TypeExpr} (h : IsType Leaf.ReadsBack shape t) :
    Refers (declaredLexemes erased align [] t) t.leaves := by
  obtain ⟨field, fields, rfl⟩ | ⟨elem, elems, rfl⟩ | hl := declared_cases erased align t
  · cases h with
    | struct _ hf =>
      have hentries : ∀ x ∈ align (field :: fields), Refers (alignedLexemes erased x) x.2.leaves :=
        fun x hx => .padded _ (hf _ (mem_of_align ha hx)).refers
      have hleaves : (align (field :: fields)).flatMap (fun x => x.2.leaves) =
          (field :: fields).flatMap FieldGroup.leaves := by
        rw [← List.flatMap_map (f := Prod.snd), ha]
      rw [TypeExpr.leaves, fieldsLeaves_eq, ← hleaves]
      exact .block hentries
  · cases h with
    | interface he =>
      rw [TypeExpr.leaves, elemsLeaves_eq]
      exact .block fun e hm => ((he e hm).mono fun _ h => h.refers).refers
  · rw [hl]
    exact h.refers

theorem refers_typeParams {fs : List FieldGroup}
    (h : ∀ f ∈ fs, IsTypeParam Leaf.ReadsBack shape f) :
    Refers (typeParamsLexemes erased fs) (fieldsLeaves fs) := by
  unfold typeParamsLexemes
  split
  · next hnil =>
    rw [List.isEmpty_iff.1 hnil]
    exact .nil
  · refine .enclosed (by decide) (refers_fields fun f hf => ?_)
    exact ((h f hf).constraint.mono fun _ h => h.refers).refers

theorem refers_receiver {receiver : Option (List FieldGroup)}
    (h : ∀ fs ∈ receiver, IsParams Leaf.ReadsBack shape fs) :
    Refers (receiverLexemes erased receiver) (resultsLeaves receiver) := by
  cases receiver with
  | none => exact .nil
  | some fs =>
    have htypes : ∀ f ∈ fs, f.type.Refers erased := fun f hf =>
      (((h fs rfl).types f hf).mono fun _ h => h.refers).refers
    have hpair : (Lexeme.token .lparen ['('], Lexeme.token .rparen [')']) ∈ brackets := by decide
    have hall := Refers.bracket hpair (refers_fields htypes) (.layout [' '] .nil)
    rwa [List.append_nil] at hall

theorem refers_valueSpec (names : List String) {type : Option TypeExpr}
    {written : TypeExpr → List Lexeme} (ht : ∀ t ∈ type, Refers (written t) t.leaves)
    {values : List (List Lexeme)} (hv : ∀ ls ∈ values, Refers ls []) (inits : List Initializer) :
    Refers (valueSpecLexemes names (type.map written) values)
      (ValueSpec.leaves ⟨names, type, inits⟩) := by
  have hvalues : Refers (if values.isEmpty then [] else
      .layout [' '] :: .token .assign ['='] :: .layout [' '] ::
        List.intercalate [.token .comma [','], .layout [' ']] values) [] := by
    split
    · exact .nil
    · have hall := Refers.separated (g := id) (f := fun _ => []) (k := .comma) (by decide) [','] hv
      rw [List.map_id, List.flatMap_eq_nil_iff.2 fun _ _ => rfl] at hall
      exact .layout _ (.token (by decide) _ (.layout _ hall))
  refine (Refers.names names).append ?_
  cases type with
  | none => exact hvalues
  | some t => exact ((ht t rfl).layout _).append hvalues

theorem refers_typeSpec {spec : TypeSpec}
    (hp : ∀ f ∈ spec.typeParams, IsTypeParam Leaf.ReadsBack shape f) {ls : List Lexeme}
    (hl : Refers ls spec.type.leaves) :
    Refers (typeSpecLexemes erased spec.name spec.typeParams spec.isAlias ls) spec.leaves := by
  have htail : Refers ((if spec.isAlias then [.layout [' '], .token .assign ['=']] else []) ++
      .layout [' '] :: ls) spec.type.leaves := by
    split
    · exact .layout _ (.token (by decide) _ (.layout _ hl))
    · exact .layout _ hl
  exact .word _ ((refers_typeParams hp).append htail)

theorem refers_func {decl : FuncDecl} (hr : ∀ fs ∈ decl.receiver, IsParams Leaf.ReadsBack shape fs)
    (hp : ∀ f ∈ decl.signature.typeParams, IsTypeParam Leaf.ReadsBack shape f)
    (hs : IsSignatureOf Leaf.ReadsBack shape (IsType Leaf.ReadsBack shape)
      (.mk [] decl.signature.params decl.signature.results)) {inner : List Lexeme}
    (hi : Refers inner []) :
    Refers (funcLexemes erased decl.receiver decl.name decl.signature (some inner))
      decl.leaves := by
  obtain ⟨receiver, name, ⟨typeParams, params, results⟩, body⟩ := decl
  have hbody : Refers (bodyLexemes (some inner)) [] := .layout _ (.enclosed (by decide) hi)
  have hsignature : Refers (signatureLexemes erased (.mk typeParams params results))
      (fieldsLeaves params ++ resultsLeaves results) := by
    have hsig : Refers (signatureLexemes erased (.mk [] params results)) _ :=
      (hs.mono fun _ h => h.refers).refers
    rwa [signatureLexemes] at hsig ⊢
  have hreceiver : Refers (receiverLexemes erased receiver) _ := refers_receiver hr
  have hparams : Refers (typeParamsLexemes erased typeParams) _ := refers_typeParams hp
  have hall := hreceiver.append (.word name (hparams.append (hsignature.append hbody)))
  rw [List.append_nil, ← List.append_assoc (fieldsLeaves _)] at hall
  exact .word _ (.layout _ hall)

theorem refers_literal {ls : List Lexeme} (h : LiteralLexemes ls) : Refers ls [] := by
  have hgap : ∀ {gap : List Lexeme}, (∀ l ∈ gap, l.isLayout = true) → Refers gap [] := by
    intro gap hgap
    induction gap with
    | nil => exact .nil
    | cons l gap ih =>
      obtain ⟨hl, hrest⟩ := List.forall_mem_cons.1 hgap
      cases l with
      | layout text => exact .layout _ (ih hrest)
      | token k text => cases hl
      | bad text => cases hl
  cases h with
  | @basic k text hk =>
    have hdot : k ≠ .dot := by
      rintro rfl
      cases hk
    exact .token hdot _ .nil
  | @signed k text number gap hk hg =>
    have hdot : k ≠ .dot := by
      rintro rfl
      rcases hk with hk | hk <;> cases hk
    exact .token hdot _ ((hgap hg).append (.token (by decide) _ .nil))

end Declarations

/-! ## Imports

A dot in an import stands behind no name. It can be the first token of a line, so here a part may
begin with a dot. -/

/-- Whether some lexemes have no name before a dot, nor end with a dot. -/
def Silent (ls : List Lexeme) : Prop :=
  ∀ (s : Scanner) (rest : List Token),
    namesBeforeDots false (s.tokens ls ++ rest) = namesBeforeDots false rest

namespace Silent

variable {ls ms : List Lexeme}

theorem nil : Silent [] := fun _ _ => rfl

theorem append (hl : Silent ls) (hm : Silent ms) : Silent (ls ++ ms) := by
  intro s rest
  rw [Scanner.tokens_append, List.append_assoc, hl, hm]

theorem layout (text : List Char) (h : Silent ls) : Silent (.layout text :: ls) := by
  intro s rest
  rw [Scanner.tokens, List.append_assoc, namesBeforeDots_emit s rfl, h]

theorem token {k : Kind} (hk : k ∉ [.ident, .dot]) (text : List Char) (h : Silent ls) :
    Silent (.token k text :: ls) := by
  simp only [List.mem_cons, List.not_mem_nil, or_false, not_or] at hk
  intro s rest
  exact (namesBeforeDots_cons (t := s.token k text) hk.2 (fun hi => absurd hi hk.1) _).trans
    (h _ rest)

theorem importSpec (i : Import) : Silent (importLexemes i) := by
  obtain ⟨name, path⟩ := i
  have hpath : Silent [quotedLexeme path] := .token (by decide) _ .nil
  cases name with
  | none => exact hpath
  | some name =>
    intro s rest
    rw [importLexemes, Option.map_some, Option.getD_some, importName]
    split
    · simp only [quotedLexeme, List.cons_append, List.nil_append, Scanner.tokens_token,
        Scanner.tokens_blank, Scanner.tokens_nil]
      rw [namesBeforeDots_dot rfl, namesBeforeDots_behind (by simp)]
    · simp only [quotedLexeme, List.cons_append, List.nil_append, Scanner.tokens_ofWord,
        Scanner.tokens_blank, Scanner.tokens_token, Scanner.tokens_nil]
      rw [namesBeforeDots_cons (Kind.ofWord_ne_dot name) (fun _ t ht => by cases ht; simp),
        namesBeforeDots_cons (by simp) (by simp)]

theorem lines {α : Type} {g : α → List Lexeme} {xs : List (List Lexeme × α)}
    (hpad : ∀ x ∈ xs, ∀ l ∈ x.1, l.isLayout = true) (h : ∀ x ∈ xs, Silent (g x.2)) :
    Silent (linesLexemes g xs) := by
  have hlayout : ∀ {ls : List Lexeme}, (∀ l ∈ ls, l.isLayout = true) → Silent ls := by
    intro ls hl
    induction ls with
    | nil => exact .nil
    | cons l ls ih =>
      obtain ⟨hl, hrest⟩ := List.forall_mem_cons.1 hl
      cases l with
      | layout text => exact .layout _ (ih hrest)
      | token k text => cases hl
      | bad text => cases hl
  induction xs with
  | nil => exact .nil
  | cons x xs ih =>
    obtain ⟨hp, hpads⟩ := List.forall_mem_cons.1 hpad
    obtain ⟨hx, hrest⟩ := List.forall_mem_cons.1 h
    obtain ⟨pad, x⟩ := x
    rw [linesLexemes_cons]
    exact (hlayout hp).append (hx.append (.layout _ (ih hpads hrest)))

/-- Behind a keyword. -/
theorem refers {keyword : String} (hk : Kind.ofWord keyword ≠ .ident) (h : Silent ls) :
    Refers (declLexemes keyword ls) [] := by
  have hkeyword : Kind.ofWord keyword ∉ [.ident, .dot] := by
    simp [hk, Kind.ofWord_ne_dot]
  intro s rest _
  refine ⟨fun t ht => ?_, (h.layout [' ']).token hkeyword keyword.toList s rest⟩
  cases ht
  exact Kind.ofWord_ne_dot keyword

end Silent

/-! ## Files -/

section Files

theorem refers_newlines (k : Nat) : Refers (newlines k) [] := by
  have hall : ∀ k, Refers (List.replicate k (.layout ['\n'])) [] := by
    intro k
    induction k with
    | zero => exact .nil
    | succ k ih => exact .layout _ ih
  exact .layout _ (hall k)

theorem refers_items {items : List (List Lexeme × Nat)} {leaves : List (List Leaf)}
    (h : List.Forall₂ Refers (items.map Prod.fst) leaves) :
    Refers (itemsLexemes items) leaves.flatten := by
  induction items generalizing leaves with
  | nil =>
    cases h
    exact .nil
  | cons item items ih =>
    cases h with
    | cons hitem hitems =>
      rw [itemsLexemes_cons, List.flatten_cons]
      exact hitem.append ((refers_newlines _).append (ih hitems))

/-- **The names before dots in a text are those of its declarations.** -/
theorem tokenize_refers {package : String} (hp : isWord package = true) (k : Nat)
    {items : List (List Lexeme × Nat)} (hs : ∀ i ∈ items, Sound i.1) {leaves : List (List Leaf)}
    (h : List.Forall₂ Refers (items.map Prod.fst) leaves) {text : String}
    (ht : text.toList = spellLexemes (fileLexemes package k items)) {ts : List Token}
    (hts : tokenize text = .ok ts) :
    namesBeforeDots false ts = references leaves.flatten := by
  rw [(free_file hp k hs).tokenize ht] at hts
  obtain rfl := Except.ok.inj hts
  have hall : Refers (fileLexemes package k items) leaves.flatten :=
    .word _ (.layout _ (.word _ ((refers_newlines k).append (refers_items h))))
  rw [Scanner.tokensToEnd, Scanner.finish]
  split
  · refine (hall .start [_] ?_).2.trans ?_
    · intro t ht
      cases ht
      exact fun hk => by cases hk
    · rw [namesBeforeDots_cons (fun hk => by cases hk) (fun hk => by cases hk)]
      exact List.append_nil _
  · exact (hall .start [] (by simp)).2.trans (List.append_nil _)

end Files

end Understudy.Source

import Understudy.Proofs.FileSegments
import Understudy.Proofs.StubStatements

/-!
# Declarations that are found

Where a name is spelled like a keyword, what is read of a declaration need not be what was written:
it can be another declaration, and one that is read over the next. But a declaration is found only
where one was written, since no statement ends within one. So what can be said of each declaration by
itself (`Declares`) holds of all that are read, in order:

> **reading finds no declarations but those that are written** (`topLevelsLoop_found`).
-/

set_option autoImplicit false

namespace Understudy.Source

open Understudy.Source.Parser

/-- Whether some lexemes, if they are read as a declaration at all, are read as one that is to a given
one as `R` says, whatever stands behind them. -/
structure Declares (R : TopLevel → TopLevel → Prop) (ls : List Lexeme) (item : TopLevel) : Prop where
  continues : Continues ls
  begins : ∃ k text ms, ls = .token k text :: ms ∧
    k ∈ [Kind.kwImport, .kwConst, .kwVar, .kwType, .kwFunc] ∧
    ∀ (s : Scanner) (rest mid : List Token) (found : TopLevel),
      (∀ t ∈ rest.head?, t.kind ≠ .comma) → topLevel k (s.tokens ls ++ rest) = .ok (found, mid) →
        R found item

section Files

variable {R : TopLevel → TopLevel → Prop} {items : List ((List Lexeme × TopLevel) × Nat)}

/-- No comma follows a declaration. -/
theorem next_items (h : ∀ i ∈ items, Declares R i.1.1 i.1.2) (s : Scanner) (m : Nat) :
    ∀ t ∈ (s.tokensToEnd (newlines m ++ itemsLexemes (items.map fun i => (i.1.1, i.2)))).head?,
      t.kind ≠ .comma := by
  obtain ⟨s', hp, he⟩ := s.tokensToEnd_newlines m (itemsLexemes (items.map fun i => (i.1.1, i.2)))
  rw [he, Scanner.finish]
  split
  · intro t ht
    cases ht
    exact fun hk => by cases hk
  · cases items with
    | nil =>
      show ∀ t ∈ s'.finish.head?, t.kind ≠ .comma
      simp [Scanner.finish, hp]
    | cons item items =>
      obtain ⟨k, text, ms, hl, hk, -⟩ := (h item List.mem_cons_self).begins
      rw [List.map_cons, itemsLexemes_cons, hl, List.cons_append, Scanner.tokensToEnd_token]
      intro t ht
      cases ht
      rintro rfl
      exact absurd hk (by decide)

/-- The first declaration is read, and reading goes on in front of a later one: behind one that cannot
be read as one, a declaration may be read over. -/
theorem topLevelsLoop_step {item : (List Lexeme × TopLevel) × Nat}
    (hitem : Declares R item.1.1 item.1.2) (hitems : ∀ i ∈ items, Declares R i.1.1 i.1.2)
    {n : Nat} {s : Scanner} {tops : List TopLevel} {rest : List Token}
    (hread : topLevelsLoop (n + 1) (s.tokensToEnd (itemsLexemes
      ((item :: items).map fun i => (i.1.1, i.2)))) = .ok (tops, rest)) :
    ∃ (found : TopLevel) (more : List TopLevel) (later : List ((List Lexeme × TopLevel) × Nat))
      (s' : Scanner), tops = found :: more ∧ R found item.1.2 ∧ later <:+ items ∧
      s'.pending = false ∧ topLevelsLoop n (s'.tokensToEnd (itemsLexemes
        (later.map fun i => (i.1.1, i.2)))) = .ok (more, rest) := by
  obtain ⟨k, text, ms, hl, hk, hfinds⟩ := hitem.begins
  have hnext := next_items hitems (s.after item.1.1) item.2
  rw [List.map_cons, itemsLexemes_cons, Scanner.tokensToEnd_append] at hread
  obtain ⟨ts, hts⟩ : ∃ ts, s.tokens item.1.1 ++ (s.after item.1.1).tokensToEnd
      (newlines item.2 ++ itemsLexemes (items.map fun i => (i.1.1, i.2))) =
        s.token k text :: ts :=
    ⟨_, by rw [hl, Scanner.tokens_token, List.cons_append]⟩
  rw [hts, topLevelsLoop, bind_apply, peek_cons] at hread
  generalize hkind : some (s.token k text).kind = kind at hread
  dsimp only at hread
  -- The first token is known, so only the branch that reads a declaration is left.
  split at hread
  · cases hkind
  · cases hkind
    exact absurd hk (by decide)
  · cases hkind
    obtain ⟨found, mid, hfound, hread⟩ := bind_eq_ok hread
    obtain ⟨_, behind, hend, hread⟩ := bind_eq_ok hread
    obtain ⟨more, _, hmore, hpure⟩ := bind_eq_ok hread
    cases hpure
    have hbehind := topLevel_statementEnd hfound hend
    have hcontinues : ∀ i ∈ items.map fun i => (i.1.1, i.2), Continues i.1 :=
      List.forall_mem_map.2 fun i hi => (hitems i hi).continues
    obtain ⟨later, s', hlater, hp, hstatement⟩ :=
      statementEnd_items hcontinues (s.after item.1.1) item.2
    rw [← hts, hitem.continues, hstatement] at hbehind
    rw [hbehind] at hmore
    obtain ⟨others, hothers, rfl⟩ := List.suffix_map_iff.1 hlater
    exact ⟨found, more, others, s', rfl, hfinds s _ mid found hnext (hts ▸ hfound), hothers, hp,
      hmore⟩

/-- **Reading declarations finds none but those that are written**, and each in its place. What is
read may be fewer declarations than are written. -/
theorem topLevelsLoop_found {n : Nat} (h : ∀ i ∈ items, Declares R i.1.1 i.1.2) {s : Scanner}
    (hs : s.pending = false) {tops : List TopLevel} {rest : List Token}
    (hread : topLevelsLoop n (s.tokensToEnd (itemsLexemes (items.map fun i => (i.1.1, i.2)))) =
      .ok (tops, rest)) :
    ∃ written, written.Sublist (items.map fun i => i.1.2) ∧ List.Forall₂ R tops written := by
  induction n generalizing items s tops with
  | zero => cases hread
  | succ n ih =>
    cases items with
    | nil =>
      have hnone : s.tokensToEnd (itemsLexemes []) = [] := by
        show s.finish = []
        simp [Scanner.finish, hs]
      rw [List.map_nil, hnone] at hread
      cases hread
      exact ⟨[], List.Sublist.refl _, .nil⟩
    | cons item items =>
      obtain ⟨hitem, hitems⟩ := List.forall_mem_cons.1 h
      obtain ⟨found, more, later, s', rfl, hfound, hlater, hp, hmore⟩ :=
        topLevelsLoop_step hitem hitems hread
      obtain ⟨written, hsub, hall⟩ := ih (fun i hi => hitems i (hlater.mem hi)) hp hmore
      refine ⟨item.1.2 :: written, ?_, .cons hfound hall⟩
      exact (hsub.trans (hlater.sublist.map _)).cons_cons _

/-- A declaration that is read back is the first that is found. -/
theorem topLevelsLoop_first {ls : List Lexeme} {item : TopLevel} (h : WritesItem ls item) {k : Nat}
    {items : List (List Lexeme × Nat)} {n : Nat} {s : Scanner} {tops : List TopLevel}
    {rest : List Token}
    (hread : topLevelsLoop n (s.tokensToEnd (itemsLexemes ((ls, k) :: items))) =
      .ok (tops, rest)) :
    ∃ (n' : Nat) (s' : Scanner) (more : List TopLevel), tops = item :: more ∧ s'.pending = false ∧
      topLevelsLoop n' (s'.tokensToEnd (itemsLexemes items)) = .ok (more, rest) := by
  cases n with
  | zero => cases hread
  | succ n =>
    obtain ⟨kind, text, ms, hl, hk, hreads⟩ := h.reads
    obtain ⟨s', hp, he⟩ := (s.after ls).tokensToEnd_newlines k (itemsLexemes items)
    have hreads := hreads s (s.after ls).lineEnd (s'.tokensToEnd (itemsLexemes items)) rfl
    rw [itemsLexemes_cons, Scanner.tokensToEnd_append, he, Scanner.finish,
      if_pos (s.pending_after h.ends), List.singleton_append] at hread
    rw [hl, Scanner.tokens_token, List.cons_append, ← hl, topLevelsLoop, bind_apply, peek_cons]
      at hread
    rw [hl, Scanner.tokens_token, List.cons_append, ← hl] at hreads
    generalize hkind : some (s.token kind text).kind = read at hread
    dsimp only at hread
    -- The first token opens a declaration, so only the branch that reads one is left.
    split at hread
    · cases hkind
    · cases hkind
      exact absurd rfl hk
    · cases hkind
      obtain ⟨found, mid, hfound, hread⟩ := bind_eq_ok hread
      obtain ⟨_, behind, hend, hread⟩ := bind_eq_ok hread
      obtain ⟨more, _, hmore, hpure⟩ := bind_eq_ok hread
      cases hpure
      have hitem : topLevel kind _ = .ok (found, mid) := hfound
      rw [hreads] at hitem
      cases hitem
      cases hend
      exact ⟨n, s', more, rfl, hp, hmore⟩

/-- Only the keyword of imports begins an import declaration. -/
theorem topLevel_decl {k : Kind} (hk : k ∈ [Kind.kwConst, .kwVar, .kwType, .kwFunc])
    {ts rest : List Token} {found : TopLevel} (h : topLevel k ts = .ok (found, rest)) :
    ∃ d, found = .decl d := by
  simp only [List.mem_cons, List.not_mem_nil, or_false] at hk
  rcases hk with rfl | rfl | rfl | rfl
  · obtain ⟨_, _, -, h⟩ := bind_eq_ok (p := advance) h
    obtain ⟨specs, _, -, hpure⟩ := bind_eq_ok (p := group valueSpec) h
    cases hpure
    exact ⟨_, rfl⟩
  · obtain ⟨_, _, -, h⟩ := bind_eq_ok (p := advance) h
    obtain ⟨specs, _, -, hpure⟩ := bind_eq_ok (p := group valueSpec) h
    cases hpure
    exact ⟨_, rfl⟩
  · obtain ⟨_, _, -, h⟩ := bind_eq_ok (p := advance) h
    obtain ⟨specs, _, -, hpure⟩ := bind_eq_ok (p := group typeSpec) h
    cases hpure
    exact ⟨_, rfl⟩
  · obtain ⟨decl, _, -, hpure⟩ := bind_eq_ok (p := funcDecl) h
    cases hpure
    exact ⟨_, rfl⟩

/-- The name of a package and the line end behind it are read in any case. -/
theorem file_eq_ok {package : String} {k : Nat} {items : List (List Lexeme × Nat)}
    {found : SourceFile} {rest : List Token}
    (hread : file (Scanner.start.tokensToEnd (fileLexemes package k items)) = .ok (found, rest)) :
    ∃ (n : Nat) (s : Scanner) (tops : List TopLevel) (rest' : List Token), s.pending = false ∧
      topLevelsLoop n (s.tokensToEnd (itemsLexemes items)) = .ok (tops, rest') ∧
      found.imports = importsOf tops ∧ found.decls = declsOf tops := by
  obtain ⟨keyword, name, mid, us, tops, htokens, -, hname, hend, htops, rfl⟩ := file_parts hread
  rw [fileLexemes, Lexeme.ofWord, Scanner.tokensToEnd_token, Scanner.tokensToEnd_layout,
    if_neg (by simp), Lexeme.ofWord, Scanner.tokensToEnd_token] at htokens
  obtain ⟨-, hbehind⟩ := List.cons.inj htokens
  obtain ⟨rfl, rfl⟩ := List.cons.inj hbehind
  have hk : Kind.ofWord package = .ident := hname
  generalize Scanner.step _ (.layout [' ']) = s at hend
  obtain ⟨s', hp, he⟩ := (s.step (.token (Kind.ofWord package) package.toList)).tokensToEnd_newlines
    k (itemsLexemes items)
  have hpending : (s.step (.token (Kind.ofWord package) package.toList)).pending = true := by
    rw [hk]
    rfl
  rw [he, Scanner.finish, if_pos hpending] at hend
  cases hend
  exact ⟨_, s', tops, _, hp, htops, rfl, rfl⟩

/-- What is read of a text is read of its declarations. -/
theorem parse_eq_loop {package : String} (hp : isWord package = true) {k : Nat}
    {items : List (List Lexeme × Nat)} (hsound : ∀ i ∈ items, Sound i.1) {text : String}
    (htext : text.toList = spellLexemes (fileLexemes package k items)) {found : SourceFile}
    (hread : SourceFile.parse text = .ok found) :
    ∃ (n : Nat) (s : Scanner) (tops : List TopLevel) (rest : List Token), s.pending = false ∧
      topLevelsLoop n (s.tokensToEnd (itemsLexemes items)) = .ok (tops, rest) ∧
      found.imports = importsOf tops ∧ found.decls = declsOf tops := by
  obtain ⟨ts, rest, hts, hfile⟩ := parse_eq_ok hread
  have htokens := (free_file hp k hsound).tokenize htext
  rw [hts] at htokens
  rw [Except.ok.inj htokens] at hfile
  exact file_eq_ok hfile

end Files

end Understudy.Source

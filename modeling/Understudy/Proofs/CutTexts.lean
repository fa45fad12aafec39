import Understudy.Proofs.FileSegments
import Understudy.Proofs.JoinedTexts
import Understudy.Proofs.ParsedLengths
import Understudy.Proofs.PrintedText

/-!
# Texts cut out of a file

A body and an initializer are kept as text. On its own such a text has the lexemes that it has in the
file, with one exception: its last word may be directly before a byte order mark in the file, and is a
keyword only where it is not.

> **The text of a run of tokens has no faults** (`run_lexemes`), and it can stand before every
> boundary unless it goes on to the end of the file.

The same holds of the text between brackets (`inner_sound`), and so of what is kept of a file that is
parsed: its bodies (`parse_bodies`) and its initializers (`parse_values`).
-/

set_option autoImplicit false

namespace Understudy.Source

open Text

section Cut

variable {c : Char} {u r old : List Char} {l : Lexeme}

theorem operatorOrBad_good {k : Kind} {t cs : List Char} (h : operatorOrBad c cs = (.token k t, r))
    (ht : t ++ u = c :: old) : (operatorOrBad c old).1.isBad = false := by
  obtain ⟨p, hp, rfl, rfl⟩ := operatorOrBad_token h
  cases ho : operator? (c :: old) with
  | some q =>
    obtain ⟨q, -, hq, -⟩ := operator?_eq_some ho
    rw [operatorOrBad, ho, Option.getD_some, hq]
    rfl
  | none =>
    -- The operator of the longer text is found in the shorter one too.
    obtain ⟨spelling, kind⟩ := p
    have hnone := List.findSome?_eq_none_iff.1 ho (spelling, kind) hp
    rw [← ht] at hnone
    simp only [isPrefixOf?_self_append] at hnone
    cases hnone

/-- A lexeme does not become a fault where the text behind it is cut off. -/
theorem next_cut (h : next c (u ++ old) = (l, r ++ old)) (hl : l.isBad = false) :
    (next c u).1.isBad = false := by
  have htext := text_append_of_next h
  cases isFirst_of_next h hl with
  | blank hc _ => rw [(IsFirst.blank hc rfl).next_eq]; rfl
  | word hc _ => rw [next_word _ hc]; rfl
  | number hc _ => rw [(IsFirst.number hc rfl).next_eq]; rfl
  | point hc hcs hd h =>
    obtain ⟨u, rfl, rfl⟩ := exists_cons_of_text htext (by rw [← (Prod.mk.inj h).1]; simp) hcs
    rw [(IsFirst.point hc rfl hd rfl).next_eq]
    rfl
  | line hc hcs h =>
    obtain ⟨u, rfl, rfl⟩ := exists_cons_of_text htext (by rw [← (Prod.mk.inj h).1]; simp) hcs
    rw [(IsFirst.line hc rfl rfl).next_eq]
    rfl
  | @enclosed e m hm _ hl' =>
    have hcut : c :: u = e.start ++ (m ++ r) := by
      rw [← htext, hl', Enclosed.make_text, List.append_assoc]
    rw [(IsFirst.enclosed e hm hcut rfl).next_eq]
    exact e.make_good _
  | sign hb hw hd hq hnext h =>
    have hcut : ∀ d, u.head? = some d → IsSignPair c d := fun d hd =>
      hnext d (by rw [List.head?_append, hd]; rfl)
    rw [(IsFirst.sign hb hw hd hq hcut rfl).next_eq]
    cases l with
    | layout text => exact absurd h operatorOrBad_ne_layout
    | bad text => cases hl
    | token k text => exact operatorOrBad_good h htext

/-- **A settled lexeme stands at the end of a text.** -/
theorem Lexeme.StandsBefore.at_end (h : l.StandsBefore (r ++ old)) (hl : l.isBad = false)
    (hs : r = [] → l.Settled) : l.StandsBefore r := by
  obtain ⟨e, t, htext⟩ := List.exists_cons_of_ne_nil h.text_ne_nil
  have hgood : (next e (t ++ r)).1.isBad = false := by
    obtain ⟨c, cs, ht, hn⟩ := h
    rw [htext, List.cons_append, ← List.append_assoc] at ht
    obtain ⟨rfl, rfl⟩ := List.cons.inj ht
    exact next_cut hn hl
  -- Both the lexeme and the first one of the text that is cut off stand before a line end.
  have happ := next_append e (t ++ r)
  generalize hnext : next e (t ++ r) = p at happ hgood
  obtain ⟨l', r'⟩ := p
  have happ : l'.text ++ r' = e :: (t ++ r) := happ
  have hfirst : l'.StandsBefore r' := ⟨e, t ++ r, happ, hnext⟩
  have hbefore := hfirst.before_newline hgood []
  have hline := h.before_boundary hl hs (d := '\n') rfl []
  have hsame : l'.text ++ (r' ++ ['\n']) = l.text ++ (r ++ ['\n']) := by
    rw [← List.append_assoc, happ, htext]
    simp
  have hlexemes := lexemes_of_standsBefore hline
  rw [← hsame, lexemes_of_standsBefore hbefore] at hlexemes
  obtain ⟨rfl, -⟩ := List.cons.inj hlexemes
  rw [htext, List.cons_append] at happ
  rwa [List.append_cancel_left (List.cons.inj happ).2] at hfirst

end Cut

/-! ## Lexemes at the end of a text -/

theorem StandBefore.at_end {ls : List Lexeme} {r old : List Char} (h : StandBefore ls (r ++ old))
    (hg : ∀ l ∈ ls, l.isBad = false) (hr : r ≠ []) : StandBefore ls r := by
  induction ls with
  | nil => trivial
  | cons l ls ih =>
    obtain ⟨hl, hg⟩ := List.forall_mem_cons.1 hg
    have hstand := h.1
    rw [← List.append_assoc] at hstand
    refine ⟨hstand.at_end hl fun hnil => ?_, ih h.2 hg⟩
    exact absurd (List.append_eq_nil_iff.1 hnil).2 hr

/-- Whether a lexeme is another one, or the word that another one is a name for in front of a byte
order mark. -/
def Lexeme.CutTo (l l' : Lexeme) : Prop :=
  l' = l ∨ ∃ text w, l = .token .ident text ∧ l' = .ofWord w

theorem Lexeme.CutTo.isLayout {l l' : Lexeme} (h : l.CutTo l') : l'.isLayout = l.isLayout := by
  obtain rfl | ⟨text, w, rfl, rfl⟩ := h <;> rfl

theorem Lexeme.CutTo.isBad {l l' : Lexeme} (h : l.CutTo l') : l'.isBad = l.isBad := by
  obtain rfl | ⟨text, w, rfl, rfl⟩ := h <;> rfl

/-- What a lexeme is at the end of a text. -/
theorem Lexeme.StandsBefore.cut {l : Lexeme} {old : List Char} (h : l.StandsBefore old)
    (hg : l.isBad = false) : ∃ l', l'.text = l.text ∧ l'.StandsBefore [] ∧ l.CutTo l' := by
  by_cases hs : l.Settled
  · exact ⟨l, rfl, Lexeme.StandsBefore.at_end (r := []) h hg fun _ => hs, Or.inl rfl⟩
  cases l with
  | bad text => cases hg
  | layout text =>
    obtain ⟨u, rfl⟩ := not_not.1 hs
    exact ⟨_, rfl, lineComment_stands (lineComment_ends h).1 (Or.inl rfl), Or.inl rfl⟩
  | token kind text =>
    -- A word directly before a byte order mark, or else it would be settled.
    have hword : ∃ c cs, text = c :: cs ∧ startsWord c = true := by
      by_contra hno
      exact hs fun c cs ht hw => absurd ⟨c, cs, ht, hw⟩ hno
    obtain ⟨c, cs, rfl, hw⟩ := hword
    obtain ⟨d, ds, ht, hn⟩ := h
    obtain ⟨rfl, rfl⟩ := List.cons.inj ht
    rw [next_word _ hw] at hn
    have hstand := word_stands (word_text hw hn) endsWord_nil
    refine ⟨_, ?_, hstand, ?_⟩
    · rw [Lexeme.ofWord_text, String.toList_ofList]
      rfl
    · obtain ⟨hkind, htext⟩ := Lexeme.token.inj (Prod.mk.inj hn).1
      rw [htext] at hkind
      split at hkind
      · exact Or.inr ⟨_, _, by rw [hkind], rfl⟩
      · refine Or.inl ?_
        rw [Lexeme.ofWord, hkind, String.toList_ofList]

/-- **Lexemes of a text that is cut off behind them.** -/
theorem StandBefore.cut {ls : List Lexeme} {l : Lexeme} {old : List Char}
    (h : StandBefore (ls ++ [l]) old) (hg : ∀ l ∈ ls, l.isBad = false) (hl : l.isBad = false) :
    ∃ l', lexemes (spellLexemes (ls ++ [l])) = ls ++ [l'] ∧ l.CutTo l' := by
  obtain ⟨hls, hlast, -⟩ := standBefore_append.1 h
  obtain ⟨l', htext, hstand, hcut⟩ := hlast.cut hl
  refine ⟨l', ?_, hcut⟩
  have hends : StandBefore ls (spellLexemes [l'] ++ []) := by
    rw [List.append_nil]
    have hspell : spellLexemes [l'] = spellLexemes [l] := by simp [htext]
    rw [hspell]
    refine hls.at_end hg ?_
    simpa using hlast.text_ne_nil
  have hall := lexemes_spell (standBefore_append.2 ⟨hends, hstand, trivial⟩)
  have hspell : spellLexemes (ls ++ [l']) = spellLexemes (ls ++ [l]) := by simp [htext]
  rwa [hspell] at hall

/-- A text that can stand before a boundary has its lexemes at the end of a text too. -/
theorem Sound.lexemes_eq {ls : List Lexeme} (h : Sound ls) : lexemes (spellLexemes ls) = ls := by
  have hgood : ∀ l ∈ lexemes (spellLexemes ls), l.isBad = false := by
    rcases List.eq_nil_or_concat' ls with rfl | ⟨init, l, rfl⟩
    · simp [lexemes_nil]
    · obtain ⟨hinit, hl⟩ := List.forall_mem_append.1 h.good
      have hlast := hl l List.mem_cons_self
      obtain ⟨l', hlexemes, hcut⟩ := (h.stand (d := '\n') rfl []).cut hinit hlast
      rw [hlexemes]
      refine List.forall_mem_append.2 ⟨hinit, List.forall_mem_singleton.2 ?_⟩
      rw [hcut.isBad, hlast]
  have hline := lexemes_spell (h.newline.stand [])
  rw [spellLexemes_append, spellLexemes_cons, spellLexemes_nil, Lexeme.text_layout,
    List.append_nil, lexemes_joined hgood, lexemes_nil] at hline
  exact List.append_cancel_right hline

/-! ## Runs of tokens -/

/-- The lexemes that a run of tokens is spelled by, where they stand in the file. -/
structure RunLexemes (run post : List Token) (ls : List Lexeme) (old : List Char) : Prop where
  ne_nil : ls ≠ []
  stand : StandBefore ls old
  good : ∀ l ∈ ls, l.isBad = false
  spell : (Token.spell run).toList = spellLexemes ls
  tokens : ∃ s ends, run = Scanner.tokens s ls ++ ends ∧ ∀ t ∈ ends, t.kind = .semi
  last : post = [] ∨ ∃ ms k text, ls = ms ++ [.token k text]

theorem exists_runLexemes {source : String} {pre run post : List Token}
    (h : tokenize source = .ok (pre ++ (run ++ post))) (hr : IsTextRun run post) :
    ∃ ls old, RunLexemes run post ls old := by
  obtain ⟨t, hfirst, hk⟩ := hr.first
  obtain ⟨run, rfl⟩ := List.head?_eq_some_iff.1 hfirst
  obtain ⟨hg, ht⟩ := tokenize_ok h
  obtain ⟨ms, text, ns, hls, rfl, hfound⟩ := Scanner.tokensToEnd_split ht.symm hk
  have hstand := standBefore_lexemes source.toList
  rw [hls] at ht hg hstand
  have hstand := (standBefore_append.1 hstand).2
  obtain ⟨-, hg⟩ := List.forall_mem_append.1 hg
  obtain ⟨-, hg⟩ := List.forall_mem_cons.1 hg
  generalize hs : (Scanner.start.after ms).step (.token t.kind text) = s
  have hgap : s.gap = [] := by
    rw [← hs]
    rfl
  have htokens : s.tokensToEnd ns = run ++ post := by
    have hend : Scanner.start.tokens ms ++ (t :: run ++ post) =
        Scanner.start.tokensToEnd (ms ++ .token t.kind text :: ns) := ht
    rw [Scanner.tokensToEnd_append, Scanner.tokensToEnd_token, hs] at hend
    exact (List.cons.inj (List.append_cancel_left hend)).2.symm
  -- The lexemes behind the first token, with what is spelled by the tokens behind it.
  have hcut : ∀ ks rest, ns = ks ++ rest →
      Token.spellAll run = String.ofList (spellLexemes ks) →
      (∃ ends, run = s.tokens ks ++ ends ∧ ∀ t ∈ ends, t.kind = .semi) →
      (post = [] ∨ ∃ ms k v, Lexeme.token t.kind text :: ks = ms ++ [.token k v]) →
      ∃ ls old, RunLexemes (t :: run) post ls old := by
    rintro ks rest rfl hspell ⟨ends, hrun, hends⟩ hlast
    rw [← List.cons_append, standBefore_append] at hstand
    refine ⟨_, _, List.cons_ne_nil _ _, hstand.1, ?_, ?_, ⟨.after .start ms, ends, ?_, hends⟩, hlast⟩
    · exact List.forall_mem_cons.2 ⟨rfl, fun l hl => hg l (List.mem_append_left rest hl)⟩
    · rw [Token.spell, hspell, hfound]
      simp
    · rw [hrun, Scanner.tokens_token, hs, ← hfound]
      rfl
  rcases hr.last with hpost | ⟨u, hu, huk⟩
  · obtain ⟨ks, gap, hns, hlayout, hrest⟩ := Scanner.gap_after_token hgap ns hg
    have hspell := s.spellAll_tokensToEnd hg
    rw [htokens, hpost, List.append_nil, hgap, List.nil_append, Scanner.rest] at hspell
    rw [hpost, List.append_nil] at htokens
    split at hspell
    · exact hcut ns [] (by simp) (by simpa using hspell) ⟨_, htokens.symm, Scanner.finish_kind _⟩
        (Or.inl hpost)
    · have hends : run = s.tokens ks ++ (s.after ks).tokensToEnd gap := by
        rw [← htokens, hns, Scanner.tokensToEnd_append]
      refine hcut ks gap hns ?_ ⟨_, hends, List.forall_mem_append.2
        ⟨Scanner.tokens_layout _ hlayout, Scanner.finish_kind _⟩⟩ (Or.inl hpost)
      rw [hns, spellLexemes_append, ← hns, hrest, String.ofList_append] at hspell
      exact (String.append_left_inj _).1 hspell
  · rcases List.eq_nil_or_concat run with rfl | ⟨init, u', rfl⟩
    · exact hcut [] ns rfl rfl ⟨[], rfl, by simp⟩ (Or.inr ⟨[], t.kind, text, rfl⟩)
    · rw [List.concat_eq_append] at *
      obtain rfl : u' = u := by
        rw [← List.cons_append, List.getLast?_concat] at hu
        exact Option.some.inj hu
      have hsplit : s.tokensToEnd ns = init ++ u' :: post := by simpa using htokens
      obtain ⟨ks, v, rest, hns, rfl, hv⟩ := Scanner.tokensToEnd_split hsplit huk
      have htokens : s.tokens ks ++ [u'] = s.tokens (ks ++ [.token u'.kind v]) ++ [] := by
        rw [List.append_nil, Scanner.tokens_append, Scanner.tokens_token, ← hv]
        rfl
      refine hcut (ks ++ [.token u'.kind v]) rest (by simp [hns]) ?_ ⟨[], htokens, by simp⟩
        (Or.inr ⟨.token t.kind text :: ks, u'.kind, v, rfl⟩)
      have hgood : ∀ l ∈ ks ++ [.token u'.kind v], l.isBad = false := by
        intro l hl
        refine hg l ?_
        rw [hns]
        simp only [List.mem_append, List.mem_cons, List.not_mem_nil, or_false] at hl ⊢
        exact hl.imp_right Or.inl
      have hall := s.spellAll_tokens hgood
      rw [Scanner.tokens_append, Scanner.after_append, Scanner.tokens_token, ← hv] at hall
      simpa [hgap, Scanner.step] using hall

/-- **The text of a run of tokens has no faults**, and before a boundary it goes on no further. -/
theorem run_lexemes {source : String} {pre run post : List Token}
    (h : tokenize source = .ok (pre ++ (run ++ post))) (hr : IsTextRun run post) :
    (∀ l ∈ lexemes (Token.spell run).toList, l.isBad = false) ∧
      (post = [] ∨ Sound (lexemes (Token.spell run).toList)) := by
  obtain ⟨ls, old, hls⟩ := exists_runLexemes h hr
  obtain ⟨init, l, rfl⟩ := (List.eq_nil_or_concat' ls).resolve_left hls.ne_nil
  obtain ⟨hinit, hl⟩ := List.forall_mem_append.1 hls.good
  obtain ⟨l', hlexemes, hcut⟩ := hls.stand.cut hinit (hl l List.mem_cons_self)
  rw [← hls.spell] at hlexemes
  have hgood : ∀ l ∈ lexemes (Token.spell run).toList, l.isBad = false := by
    rw [hlexemes]
    refine List.forall_mem_append.2 ⟨hinit, List.forall_mem_singleton.2 ?_⟩
    rw [hcut.isBad]
    exact hl l List.mem_cons_self
  refine ⟨hgood, hls.last.imp_right ?_⟩
  rintro ⟨ms, k, text, hlast⟩
  refine sound_of_last hgood hlexemes ?_
  obtain ⟨-, hl⟩ := List.append_inj' hlast rfl
  rw [hcut.isLayout, (List.cons.inj hl).1]
  rfl

/-- **The text between brackets has no faults**, and before a boundary it goes on no further: in the
file a bracket stands there. -/
theorem inner_sound {source : String} {pre run post : List Token} {close : Token}
    (h : tokenize source = .ok (pre ++ (run ++ close :: post))) (hk : close.kind.closes = true) :
    ∃ ls, Sound ls ∧ (Token.inner run close).toList = spellLexemes ls := by
  obtain ⟨ls, old, hstand, hg, ⟨c, hc, hline, hmark⟩, hspell, -⟩ := inner_lexemes h hk
  refine ⟨ls, ⟨fun hd rest => ?_, hg⟩, hspell⟩
  refine hstand.before_boundary hg (fun l hl => ?_) hd rest
  obtain ⟨init, rfl⟩ := List.getLast?_eq_some_iff.1 hl
  have hlast : l.StandsBefore old := (standBefore_append.1 hstand).2.1
  have hc : old.head? = some c := hc
  refine (settled_or_comment hlast (hg l (by simp)) ?_).resolve_right ?_
  · rw [hc]
    exact fun h => hmark (Option.some.inj h)
  · rintro ⟨u, rfl⟩
    rcases (lineComment_ends hlast).2 with hnil | hnew
    · rw [hnil] at hc
      cases hc
    · exact hline (Option.some.inj (hc.symm.trans hnew))

/-! ## Bodies and initializers of a file -/

section Kept

variable {source : String} {file : SourceFile}

theorem parse_bodies (h : SourceFile.parse source = .ok file) {s : String}
    (hs : .body s ∈ file.extracts) : ∃ ls, Sound ls ∧ s.toList = spellLexemes ls := by
  obtain ⟨xs, ht, hxs, he⟩ := parse_segments h
  rw [he] at hs
  obtain ⟨before, opening, run, close, after, rfl, hkept, -, hclose⟩ :=
    hxs.exists_enclosed hs (Or.inr ⟨s, rfl⟩)
  have htokens : tokenize source = .ok ((Segment.allTokens before ++ [opening]) ++
      (run ++ close :: Segment.allTokens after)) := by
    simpa [Segment.tokens] using ht
  obtain rfl := extract?_enclosed.1 hkept
  exact inner_sound htokens hclose

/-- An initializer has no faults. Only the last one of the file goes on before some boundary. -/
theorem parse_values (h : SourceFile.parse source = .ok file) {before after : List Extract}
    {s : String} (hs : file.extracts = before ++ .value s :: after) :
    (∀ l ∈ lexemes s.toList, l.isBad = false) ∧ (after = [] ∨ Sound (lexemes s.toList)) := by
  obtain ⟨xs, ht, hxs, he⟩ := parse_segments h
  rw [he] at hs
  obtain ⟨ys, zs, rfl, -, hzs⟩ := List.filterMap_eq_append_iff.1 hs
  obtain ⟨ws, x, us, rfl, -, hx, hus⟩ := List.filterMap_eq_cons_iff.1 hzs
  rw [← List.append_assoc] at hxs ht
  obtain ⟨c, hxs⟩ := hxs.suffix
  cases hxs with
  | token _ _ _ _ | reference _ _ _ _ | imports _ _ _ => cases hx
  | enclosed _ _ _ _ =>
    rw [Segment.extract?] at hx
    split at hx <;> cases hx
  | @text _ _ _ sign run _ _ hr _ _ _ hrest =>
    cases sign with
    | none => cases hx
    | some sign =>
      cases hx
      rw [List.append_nil] at hr
      have htokens : tokenize source = .ok ((Segment.allTokens (ys ++ ws) ++ [sign]) ++
          (run ++ Segment.allTokens us)) := by
        rw [ht, Segment.allTokens_append, Segment.allTokens_cons, Segment.tokens]
        simp
      obtain ⟨hg, hend⟩ := run_lexemes htokens hr
      refine ⟨hg, hend.imp_left fun hnil => ?_⟩
      rw [← hus]
      exact hrest.extracts_nil hnil

end Kept

end Understudy.Source

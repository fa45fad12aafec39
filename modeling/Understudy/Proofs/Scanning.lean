import Understudy.Proofs.Boundary
import Understudy.Source.Parser

/-!
# Tokens of lexemes

`Token.scan` does two things at once: it finds the lexemes of a text, and it makes tokens of them,
with a semicolon where a line ends after a token that can end a statement. Here the second half is
taken out of it. A `Scanner` is what the loop carries from one lexeme to the next; `tokens` are
the tokens that a list of lexemes adds, and `after` is where the scanner stands then. Both go
along with putting lists together (`tokens_append`), which is how the tokens of a printed file are
found block by block.

> **a text without faults has the tokens of its lexemes** (`scan_eq`).

Nothing of the text is lost either: tokens and gaps spell it (`spellAll_tokens`). This is why a
body or an initializer, which the parser keeps as the text of its tokens, is kept as it was.
-/

set_option autoImplicit false

namespace Understudy.Source

open Text

/-- What the tokenizer knows between two lexemes. -/
structure Scanner where
  /-- The number of bytes so far. -/
  offset : Nat
  /-- Whether a line end would end a statement. -/
  pending : Bool
  /-- The layout since the last token. -/
  gap : List Char

namespace Scanner

/-- The semicolon that a line end here stands for. -/
def lineEnd (s : Scanner) : Token :=
  { kind := .semi, gap := String.ofList s.gap, text := "", start := s.offset }

/-- The token of a lexeme here. -/
def token (s : Scanner) (kind : Kind) (text : List Char) : Token :=
  { kind, gap := String.ofList s.gap, text := String.ofList text, start := s.offset }

@[simp] theorem token_kind (s : Scanner) (kind : Kind) (text : List Char) :
    (s.token kind text).kind = kind := rfl

@[simp] theorem token_text (s : Scanner) (kind : Kind) (text : List Char) :
    (s.token kind text).text = String.ofList text := rfl

@[simp] theorem token_gap (s : Scanner) (kind : Kind) (text : List Char) :
    (s.token kind text).gap = String.ofList s.gap := rfl

/-- The tokens that a lexeme adds. -/
def emit (s : Scanner) : Lexeme → List Token
  | .token kind text => [s.token kind text]
  | .layout text => if s.pending && text.contains '\n' then [s.lineEnd] else []
  | .bad _ => []

/-- The scanner after a lexeme. -/
def step (s : Scanner) : Lexeme → Scanner
  | .token kind text =>
    { offset := s.offset + byteSize text, pending := kind.endsStatement, gap := [] }
  | .layout text =>
    if s.pending && text.contains '\n' then
      { offset := s.offset + byteSize text, pending := false, gap := text }
    else { offset := s.offset + byteSize text, pending := s.pending, gap := s.gap ++ text }
  | .bad _ => s

/-- The tokens that some lexemes add. -/
def tokens (s : Scanner) : List Lexeme → List Token
  | [] => []
  | l :: ls => s.emit l ++ (s.step l).tokens ls

/-- The scanner after some lexemes. -/
def after (s : Scanner) : List Lexeme → Scanner
  | [] => s
  | l :: ls => (s.step l).after ls

/-- The tokens that the end of the text adds. -/
def finish (s : Scanner) : List Token := if s.pending then [s.lineEnd] else []

/-- The tokens of the rest of a text. -/
def tokensToEnd (s : Scanner) (ls : List Lexeme) : List Token :=
  s.tokens ls ++ (s.after ls).finish

/-- The scanner at the beginning of a text. -/
def start : Scanner := { offset := 0, pending := false, gap := [] }

variable (s : Scanner) {ls ms : List Lexeme}

@[simp] theorem tokens_nil : s.tokens [] = [] := rfl

@[simp] theorem after_nil : s.after [] = s := rfl

@[simp] theorem tokens_token (kind : Kind) (text : List Char) (ls : List Lexeme) :
    s.tokens (.token kind text :: ls) =
      s.token kind text :: (s.step (.token kind text)).tokens ls := rfl

@[simp] theorem after_cons (l : Lexeme) (ls : List Lexeme) :
    s.after (l :: ls) = (s.step l).after ls := rfl

theorem tokens_append (ls ms : List Lexeme) :
    s.tokens (ls ++ ms) = s.tokens ls ++ (s.after ls).tokens ms := by
  induction ls generalizing s with
  | nil => rfl
  | cons l ls ih => simp [tokens, ih]

theorem after_append (ls ms : List Lexeme) : s.after (ls ++ ms) = (s.after ls).after ms := by
  induction ls generalizing s with
  | nil => rfl
  | cons l ls ih => simp [ih]

@[simp] theorem tokensToEnd_nil : s.tokensToEnd [] = s.finish := rfl

@[simp] theorem tokensToEnd_token (kind : Kind) (text : List Char) (ls : List Lexeme) :
    s.tokensToEnd (.token kind text :: ls) =
      s.token kind text :: (s.step (.token kind text)).tokensToEnd ls := rfl

theorem tokensToEnd_append (ls ms : List Lexeme) :
    s.tokensToEnd (ls ++ ms) = s.tokens ls ++ (s.after ls).tokensToEnd ms := by
  rw [tokensToEnd, tokens_append, after_append, List.append_assoc]
  rfl

theorem tokensToEnd_layout (text : List Char) (ls : List Lexeme) :
    s.tokensToEnd (.layout text :: ls) =
      if s.pending && text.contains '\n' then s.lineEnd :: (s.step (.layout text)).tokensToEnd ls
      else (s.step (.layout text)).tokensToEnd ls := by
  rw [tokensToEnd, tokens, emit, after_cons]
  split <;> rfl

theorem step_layout_pending (text : List Char) :
    (s.step (.layout text)).pending = (s.pending && !text.contains '\n') := by
  rw [step]
  cases hp : s.pending <;> cases hc : text.contains '\n' <;> simp

/-- A blank adds no token. -/
@[simp] theorem tokens_blank (ls : List Lexeme) :
    s.tokens (.layout [' '] :: ls) = (s.step (.layout [' '])).tokens ls := by
  simp [tokens, emit]

@[simp] theorem step_blank_pending : (s.step (.layout [' '])).pending = s.pending := by
  simp [step]

@[simp] theorem step_blank_gap : (s.step (.layout [' '])).gap = s.gap ++ [' '] := by
  simp [step]

/-! ## Scanning a text -/

end Scanner

theorem Token.afterLayout_nil (ts : List Token) : afterLayout [] ts = ts := by
  cases ts <;> simp [afterLayout]

theorem Token.afterLayout_append (a b : List Char) (ts : List Token) :
    afterLayout a (afterLayout b ts) = afterLayout (a ++ b) ts := by
  cases ts <;> simp [afterLayout, String.append_assoc]

namespace Scanner

/-- **A text without faults has the tokens of its lexemes.** -/
theorem scan_eq (s : Scanner) (cs : List Char) (h : ∀ l ∈ lexemes cs, l.isBad = false) :
    ∃ ts, Token.scan s.offset s.pending cs = .ok ts ∧
      Token.afterLayout s.gap ts = s.tokens (lexemes cs) ++ (s.after (lexemes cs)).finish := by
  fun_induction lexemes cs generalizing s with
  | case1 =>
    refine ⟨_, by rw [Token.scan], ?_⟩
    cases hp : s.pending <;> simp [finish, hp, Token.afterLayout, Token.lineEnd, lineEnd]
  | case2 c cs ih =>
    obtain ⟨hl, hrest⟩ := List.forall_mem_cons.1 h
    rw [Token.scan]
    -- A line end inserts the semicolon at once; the gap that stands before it goes on behind it.
    cases hlex : (next c cs).1 with
    | bad text =>
      rw [hlex] at hl
      exact absurd hl (by simp [Lexeme.isBad])
    | token kind text =>
      obtain ⟨ts, hts, hgap⟩ := ih (s.step (.token kind text)) hrest
      simp only [step] at hts hgap
      refine ⟨_, by simp only [Lexeme.text_token, hts]; rfl, ?_⟩
      rw [Token.afterLayout_nil] at hgap
      simp [Token.afterLayout, hgap, step, token]
    | layout text =>
      obtain ⟨ts, hts, hgap⟩ := ih (s.step (.layout text)) hrest
      simp only [tokens, emit, after_cons]
      rw [step] at hts hgap
      cases hp : (s.pending && text.contains '\n') with
      | true =>
        simp only [hp, if_true] at hts hgap
        refine ⟨_, by simp only [Lexeme.text_layout, hts, if_true]; rfl, ?_⟩
        simp only [hp, if_true, step]
        rw [hgap]
        simp [Token.afterLayout, lineEnd, Token.lineEnd]
      | false =>
        simp only [hp, Bool.false_eq_true, if_false] at hts hgap
        refine ⟨_, by
          simp only [Lexeme.text_layout, hts, Bool.false_eq_true, if_false]; rfl, ?_⟩
        simp only [hp, Bool.false_eq_true, if_false, step, List.nil_append,
          Token.afterLayout_append]
        exact hgap

/-- A text that can be scanned has no faults. -/
theorem isBad_of_scan {offset : Nat} {pending : Bool} {cs : List Char} {ts : List Token}
    (h : Token.scan offset pending cs = .ok ts) : ∀ l ∈ lexemes cs, l.isBad = false := by
  fun_induction lexemes cs generalizing offset pending ts with
  | case1 => simp
  | case2 c cs ih =>
    rw [Token.scan] at h
    -- Whatever the lexeme, the rest has been scanned.
    have hrest : ∀ {o : Nat} {p : Bool} {f : List Token → List Token},
        (do let ts ← Token.scan o p (next c cs).2; return f ts) = Except.ok ts →
        ∀ l ∈ lexemes (next c cs).2, l.isBad = false := by
      intro o p f h
      cases hs : Token.scan o p (next c cs).2 with
      | error fault =>
        rw [hs] at h
        cases h
      | ok us => exact ih hs
    cases hlex : (next c cs).1 with
    | bad text =>
      simp only [hlex] at h
      cases h
    | token kind text =>
      simp only [hlex] at h
      exact List.forall_mem_cons.2 ⟨rfl, hrest h⟩
    | layout text =>
      simp only [hlex] at h
      refine List.forall_mem_cons.2 ⟨rfl, ?_⟩
      split at h
      · exact hrest h
      · exact hrest h

end Scanner

/-- **The tokens of a text are those of its lexemes.** -/
theorem tokenize_eq {source : String} (h : ∀ l ∈ lexemes source.toList, l.isBad = false) :
    tokenize source = .ok (Scanner.start.tokens (lexemes source.toList) ++
      (Scanner.start.after (lexemes source.toList)).finish) := by
  obtain ⟨ts, hts, hgap⟩ := Scanner.scan_eq .start source.toList h
  have hgap : ts = _ := (Token.afterLayout_nil ts).symm.trans hgap
  have hts : Token.scan 0 false source.toList = .ok ts := hts
  rw [tokenize, hts, ← hgap]
  rfl

theorem tokenize_ok {source : String} {ts : List Token} (h : tokenize source = .ok ts) :
    (∀ l ∈ lexemes source.toList, l.isBad = false) ∧
      ts = Scanner.start.tokens (lexemes source.toList) ++
        (Scanner.start.after (lexemes source.toList)).finish := by
  have hgood : ∀ l ∈ lexemes source.toList, l.isBad = false := by
    cases hs : Token.scan 0 false source.toList with
    | error fault =>
      rw [tokenize, hs] at h
      cases h
    | ok us => exact Scanner.isBad_of_scan hs
  rw [tokenize_eq hgood] at h
  exact ⟨hgood, (Except.ok.inj h).symm⟩

/-- The lexemes of a text that is spelled by lexemes that stand. -/
theorem lexemes_spell {ls : List Lexeme} (h : StandBefore ls []) :
    lexemes (spellLexemes ls) = ls := by
  have hl := lexemes_spell_append h
  rwa [List.append_nil, lexemes_nil, List.append_nil] at hl

/-! ## Nothing is lost -/

namespace Scanner

/-- **Tokens and gaps spell the text.** -/
theorem spellAll_tokens (s : Scanner) {ls : List Lexeme} (h : ∀ l ∈ ls, l.isBad = false) :
    Token.spellAll (s.tokens ls) ++ String.ofList (s.after ls).gap =
      String.ofList (s.gap ++ spellLexemes ls) := by
  induction ls generalizing s with
  | nil => simp [Token.spellAll]
  | cons l ls ih =>
    obtain ⟨hl, hrest⟩ := List.forall_mem_cons.1 h
    have ih := ih (s.step l) hrest
    cases l with
    | bad text => exact absurd hl (by simp [Lexeme.isBad])
    | token kind text =>
      rw [tokens_token, Token.spellAll, after_cons, String.append_assoc, ih]
      simp [step, String.append_assoc]
    | layout text =>
      rw [tokens, after_cons, emit]
      rw [step] at ih ⊢
      split
      · next hp =>
        rw [if_pos hp] at ih
        rw [List.singleton_append, Token.spellAll, String.append_assoc, ih]
        simp [lineEnd]
      · next hp =>
        rw [if_neg hp] at ih
        rw [List.nil_append, ih]
        simp

/-- The text of a run of tokens that begins and ends with a token. -/
theorem spell_tokens (s : Scanner) {kind : Kind} {text : List Char} {ls : List Lexeme}
    (h : ∀ l ∈ ls, l.isBad = false) (hgap : (s.after (.token kind text :: ls)).gap = []) :
    Token.spell (s.tokens (.token kind text :: ls)) =
      String.ofList (spellLexemes (.token kind text :: ls)) := by
  have hall := (s.step (.token kind text)).spellAll_tokens h
  rw [after_cons] at hgap
  rw [hgap] at hall
  rw [tokens_token, Token.spell, spellLexemes_cons]
  simp only [String.ofList_nil, String.append_empty] at hall
  rw [hall]
  simp [step]

/-- The text between two brackets. -/
theorem inner_tokens (s : Scanner) (hs : s.gap = []) {ls : List Lexeme}
    (h : ∀ l ∈ ls, l.isBad = false) {close : Token}
    (hc : close.gap = String.ofList (s.after ls).gap) :
    Token.inner (s.tokens ls) close = String.ofList (spellLexemes ls) := by
  rw [Token.inner, hc, spellAll_tokens s h, hs, List.nil_append]

end Scanner

/-! ## Lines

Layout adds a token only where a line ends behind a token that can end a statement. -/

/-- Whether a lexeme is layout. -/
def Lexeme.isLayout : Lexeme → Bool
  | .layout _ => true
  | _ => false

/-- Whether some lexemes end with a token behind which a line end ends a statement. -/
def EndsLine (ls : List Lexeme) : Prop :=
  ∃ ms kind text, ls = ms ++ [.token kind text] ∧ kind.endsStatement = true

theorem endsLine_token {kind : Kind} (h : kind.endsStatement = true) (text : List Char) :
    EndsLine [.token kind text] :=
  ⟨[], kind, text, rfl, h⟩

theorem EndsLine.append {ms : List Lexeme} (h : EndsLine ms) (ls : List Lexeme) :
    EndsLine (ls ++ ms) := by
  obtain ⟨ns, kind, text, rfl, hk⟩ := h
  exact ⟨ls ++ ns, kind, text, by rw [List.append_assoc], hk⟩

theorem EndsLine.cons {ms : List Lexeme} (h : EndsLine ms) (l : Lexeme) : EndsLine (l :: ms) :=
  h.append [l]

theorem EndsLine.intercalate {between : List Lexeme} {lss : List (List Lexeme)} (hne : lss ≠ [])
    (h : ∀ ls ∈ lss, EndsLine ls) : EndsLine (List.intercalate between lss) := by
  refine intercalate_induction (fun he => absurd he hne) h fun ls _ ms hms => ?_
  exact (hms.append between).append ls

namespace Scanner

theorem pending_after (s : Scanner) {ls : List Lexeme} (h : EndsLine ls) :
    (s.after ls).pending = true := by
  obtain ⟨ms, kind, text, rfl, hk⟩ := h
  rw [after_append, after_cons, after_nil]
  exact hk

theorem gap_after (s : Scanner) {ls : List Lexeme} (h : EndsLine ls) : (s.after ls).gap = [] := by
  obtain ⟨ms, kind, text, rfl, hk⟩ := h
  rw [after_append, after_cons, after_nil]
  rfl

/-- The line end behind a statement. -/
theorem tokens_lineEnd (s : Scanner) {ls : List Lexeme} (h : EndsLine ls) (ms : List Lexeme) :
    s.tokens (ls ++ .layout ['\n'] :: ms) =
      s.tokens ls ++ (s.after ls).lineEnd ::
        ((s.after ls).step (.layout ['\n'])).tokens ms := by
  rw [tokens_append, tokens, emit, s.pending_after h]
  simp

theorem pending_lineEnd (s : Scanner) : (s.step (.layout ['\n'])).pending = false := by
  rw [step]
  cases hp : s.pending <;> simp

/-- Layout at the beginning of a line. -/
theorem tokens_indent {s : Scanner} (hs : s.pending = false) {ls : List Lexeme}
    (hl : ∀ l ∈ ls, l.isLayout = true) (ms : List Lexeme) :
    s.tokens (ls ++ ms) = (s.after ls).tokens ms ∧ (s.after ls).pending = false := by
  induction ls generalizing s with
  | nil => exact ⟨rfl, hs⟩
  | cons l ls ih =>
    obtain ⟨hl, hrest⟩ := List.forall_mem_cons.1 hl
    cases l with
    | layout text =>
      have hp : (s.step (.layout text)).pending = false := by simp [step, hs]
      have ih := ih hp hrest
      refine ⟨?_, ih.2⟩
      rw [List.cons_append, tokens, after_cons, ih.1]
      simp [emit, hs]
    | token kind text => exact absurd hl Bool.false_ne_true
    | bad text => exact absurd hl Bool.false_ne_true

/-- Blanks add no token. -/
theorem tokens_blanks (s : Scanner) (k : Nat) (ls : List Lexeme) :
    s.tokens (List.replicate k (.layout [' ']) ++ ls) =
      (s.after (List.replicate k (.layout [' ']))).tokens ls := by
  induction k generalizing s with
  | zero => rfl
  | succ k ih => rw [List.replicate_succ, List.cons_append, tokens_blank, ih, after_cons]

end Scanner

/-! ## Brackets -/

/-- How many brackets are open after some lexemes, with `depth` open before; nothing if one is
closed that was not opened. -/
def depthAfter : Nat → List Lexeme → Option Nat
  | depth, [] => some depth
  | depth, .token kind _ :: ls =>
    if kind.opens then depthAfter (depth + 1) ls
    else if kind.closes then
      match depth with
      | 0 => none
      | depth + 1 => depthAfter depth ls
    else depthAfter depth ls
  | depth, _ :: ls => depthAfter depth ls

/-- Whether every bracket among some lexemes has its partner there. -/
def Balanced (ls : List Lexeme) : Prop := depthAfter 0 ls = some 0

theorem depthAfter_opens {kind : Kind} (ho : kind.opens = true) (d : Nat) (text : List Char)
    (ls : List Lexeme) : depthAfter d (.token kind text :: ls) = depthAfter (d + 1) ls := by
  simp [depthAfter, ho]

theorem depthAfter_closes {kind : Kind} (ho : ¬ kind.opens = true) (hc : kind.closes = true)
    (d : Nat) (text : List Char) (ls : List Lexeme) :
    depthAfter (d + 1) (.token kind text :: ls) = depthAfter d ls := by
  simp [depthAfter, ho, hc]

theorem depthAfter_plain {kind : Kind} (ho : ¬ kind.opens = true) (hc : ¬ kind.closes = true)
    (d : Nat) (text : List Char) (ls : List Lexeme) :
    depthAfter d (.token kind text :: ls) = depthAfter d ls := by
  cases d <;> simp [depthAfter, ho, hc]

theorem depthAfter_other {l : Lexeme} (hl : ∀ kind text, l ≠ .token kind text) (d : Nat)
    (ls : List Lexeme) : depthAfter d (l :: ls) = depthAfter d ls := by
  cases l with
  | token kind text => exact absurd rfl (hl kind text)
  | _ => cases d <;> rfl

theorem depthAfter_append {ls ms : List Lexeme} {d e : Nat} (h : depthAfter d ls = some e) :
    depthAfter d (ls ++ ms) = depthAfter e ms := by
  fun_induction depthAfter d ls with
  | case1 d => rw [← Option.some.inj h, List.nil_append]
  | case2 d kind text ls ho ih => rw [List.cons_append, depthAfter_opens ho, ih h]
  | case3 kind text ls ho hc => simp at h
  | case4 kind text ls ho hc d ih => rw [List.cons_append, depthAfter_closes ho hc, ih h]
  | case5 d kind text ls ho hc ih => rw [List.cons_append, depthAfter_plain ho hc, ih h]
  | case6 d l ls hl ih => rw [List.cons_append, depthAfter_other hl, ih h]

/-- Brackets that are open from before stay open. -/
theorem depthAfter_add {ls : List Lexeme} {d e : Nat} (h : depthAfter d ls = some e) (k : Nat) :
    depthAfter (d + k) ls = some (e + k) := by
  fun_induction depthAfter d ls with
  | case1 d => rw [depthAfter, Option.some.inj h]
  | case2 d kind text ls ho ih => rw [depthAfter_opens ho, Nat.add_right_comm, ih h]
  | case3 kind text ls ho hc => simp at h
  | case4 kind text ls ho hc d ih =>
    rw [Nat.succ_eq_add_one, Nat.add_right_comm, depthAfter_closes ho hc, ih h]
  | case5 d kind text ls ho hc ih => rw [depthAfter_plain ho hc, ih h]
  | case6 d l ls hl ih => rw [depthAfter_other hl, ih h]

theorem Balanced.depthAfter {ls : List Lexeme} (h : Balanced ls) (d : Nat) :
    depthAfter d ls = some d := by
  have := depthAfter_add h d
  rwa [Nat.zero_add] at this

section Brackets

variable {ls ms : List Lexeme}

theorem balanced_nil : Balanced [] := rfl

theorem Balanced.append (hl : Balanced ls) (hm : Balanced ms) : Balanced (ls ++ ms) := by
  rw [Balanced, depthAfter_append hl]
  exact hm

theorem Balanced.layout (h : Balanced ls) (text : List Char) : Balanced (.layout text :: ls) := h

theorem Balanced.token (h : Balanced ls) {kind : Kind} (ho : kind.opens = false)
    (hc : kind.closes = false) (text : List Char) : Balanced (.token kind text :: ls) := by
  rw [Balanced, depthAfter_plain (by simp [ho]) (by simp [hc])]
  exact h

/-- A bracket, what is between it and its partner, and what is behind. -/
theorem Balanced.bracket (h : Balanced ls) {op cl : Kind} (ho : op.opens = true)
    (hc : cl.closes = true) (hn : cl.opens = false) (t t' : List Char) (hm : Balanced ms) :
    Balanced (.token op t :: (ls ++ .token cl t' :: ms)) := by
  rw [Balanced, depthAfter_opens ho, depthAfter_append (h.depthAfter 1),
    depthAfter_closes (by simp [hn]) hc]
  exact hm

end Brackets

/-- What is no token emits the semicolon that a line end stands for, or nothing. -/
theorem Scanner.emit_cases (s : Scanner) {l : Lexeme} (hl : ∀ kind text, l ≠ .token kind text) :
    s.emit l = [] ∨ s.emit l = [s.lineEnd] := by
  cases l with
  | token kind text => exact absurd rfl (hl kind text)
  | layout text =>
    rw [Scanner.emit]
    split
    · exact Or.inr rfl
    · exact Or.inl rfl
  | bad text => exact Or.inl rfl

/-- **Counting brackets passes over lexemes.** -/
theorem splitClose?_tokens (s : Scanner) {ls : List Lexeme} {d e : Nat}
    (h : depthAfter d ls = some e) (rest : List Token) :
    Token.splitClose? d (s.tokens ls ++ rest) =
      (Token.splitClose? e rest).map fun (run, after) => (s.tokens ls ++ run, after) := by
  -- The cases are those of the count; a semicolon that a line end inserts is no bracket.
  fun_induction depthAfter d ls generalizing s with
  | case1 d =>
    rw [← Option.some.inj h]
    simp
  | case2 d kind text ls ho ih =>
    rw [Scanner.tokens_token, List.cons_append, Token.splitClose?.eq_def]
    simp [ho, ih _ h, Function.comp_def]
  | case3 kind text ls ho hc => simp at h
  | case4 kind text ls ho hc d ih =>
    rw [Scanner.tokens_token, List.cons_append, Token.splitClose?.eq_def]
    simp [ho, hc, ih _ h, Function.comp_def]
  | case5 d kind text ls ho hc ih =>
    rw [Scanner.tokens_token, List.cons_append, Token.splitClose?.eq_def]
    simp [ho, hc, ih _ h, Function.comp_def]
  | case6 d l ls hl ih =>
    rw [Scanner.tokens]
    rcases s.emit_cases hl with he | he
    · rw [he, List.nil_append, ih _ h]
    · rw [he, List.singleton_append, List.cons_append, Token.splitClose?.eq_def]
      simp [Scanner.lineEnd, Kind.opens, Kind.closes, ih _ h, Function.comp_def]

/-- The token that closes a bracket is found behind balanced lexemes. -/
theorem splitClose?_balanced (s : Scanner) {ls : List Lexeme} (h : Balanced ls) {close : Token}
    (ho : close.kind.opens = false) (hc : close.kind.closes = true) (rest : List Token) :
    Token.splitClose? 0 (s.tokens ls ++ close :: rest) = some (s.tokens ls, close, rest) := by
  rw [splitClose?_tokens s h, Token.splitClose?.eq_def]
  simp [ho, hc]

/-! ## Runs up to a delimiter -/

/-- The kinds of the tokens that stand outside all brackets, with `depth` brackets open before. -/
def topKinds : Nat → List Lexeme → List Kind
  | _, [] => []
  | depth, .token kind _ :: ls =>
    if kind.opens then topKinds (depth + 1) ls
    else if kind.closes then topKinds (depth - 1) ls
    else if depth = 0 then kind :: topKinds depth ls
    else topKinds depth ls
  | depth, _ :: ls => topKinds depth ls

/-- **A run of tokens on one line goes on over lexemes without a delimiter.** -/
theorem splitBalanced_tokens (s : Scanner) {delimiters : List Kind} {ls : List Lexeme} {d e : Nat}
    (h : depthAfter d ls = some e) (htop : ∀ k ∈ topKinds d ls, k ∉ delimiters)
    (hline : ∀ text, .layout text ∈ ls → '\n' ∉ text) (rest : List Token) :
    Token.splitBalanced delimiters d (s.tokens ls ++ rest) =
      (s.tokens ls ++ (Token.splitBalanced delimiters e rest).1,
        (Token.splitBalanced delimiters e rest).2) := by
  -- The cases are those of the count; no line ends here, so no semicolon is inserted.
  fun_induction depthAfter d ls generalizing s with
  | case1 d =>
    rw [← Option.some.inj h]
    simp
  | case2 d kind text ls ho ih =>
    simp only [topKinds, ho, if_true] at htop
    rw [Scanner.tokens_token, List.cons_append, Token.splitBalanced.eq_def]
    simp [ho, ih _ h htop fun text hm => hline text (List.mem_cons_of_mem _ hm)]
  | case3 kind text ls ho hc => simp at h
  | case4 kind text ls ho hc d ih =>
    simp only [topKinds, ho, hc, if_true, Bool.false_eq_true, if_false] at htop
    rw [Scanner.tokens_token, List.cons_append, Token.splitBalanced.eq_def]
    simp [ho, hc, ih _ h htop fun text hm => hline text (List.mem_cons_of_mem _ hm)]
  | case5 d kind text ls ho hc ih =>
    have hrest : ∀ k ∈ topKinds d ls, k ∉ delimiters := by
      intro k hk
      refine htop k ?_
      simp only [topKinds, ho, hc, Bool.false_eq_true, if_false]
      split
      · exact List.mem_cons_of_mem _ hk
      · exact hk
    have hkind : (d == 0 && delimiters.contains kind) = false := by
      cases d with
      | zero => simpa using htop kind (by simp [topKinds, ho, hc])
      | succ d => rfl
    rw [Scanner.tokens_token, List.cons_append, Token.splitBalanced.eq_def]
    simp only [Scanner.token_kind, ho, hc, Bool.false_eq_true, if_false, hkind]
    rw [ih _ h hrest fun text hm => hline text (List.mem_cons_of_mem _ hm)]
    rfl
  | case6 d l ls hl ih =>
    have hemit : s.emit l = [] := by
      cases l with
      | token kind text => exact absurd rfl (hl kind text)
      | layout text =>
        have hn := hline text List.mem_cons_self
        simp [Scanner.emit, hn]
      | bad text => rfl
    have htop : ∀ k ∈ topKinds d ls, k ∉ delimiters := by
      cases l with
      | token kind text => exact absurd rfl (hl kind text)
      | layout text => exact htop
      | bad text => exact htop
    rw [Scanner.tokens, hemit, List.nil_append,
      ih _ h htop fun text hm => hline text (List.mem_cons_of_mem _ hm)]

/-- The kinds of the tokens among some lexemes. -/
def tokenKinds (ls : List Lexeme) : List Kind :=
  ls.filterMap fun
    | .token kind _ => some kind
    | _ => none

theorem tokenKinds_append (ls ms : List Lexeme) :
    tokenKinds (ls ++ ms) = tokenKinds ls ++ tokenKinds ms := List.filterMap_append

theorem tokenKinds_layout {gap : List Lexeme} (h : ∀ l ∈ gap, l.isLayout = true) :
    tokenKinds gap = [] := by
  refine List.filterMap_eq_nil_iff.2 fun l hl => ?_
  cases l with
  | token kind text => cases h _ hl
  | layout | bad => rfl

/-- On one line there are no other tokens. -/
theorem kinds_tokens (s : Scanner) {ls : List Lexeme}
    (hline : ∀ text, .layout text ∈ ls → '\n' ∉ text) :
    (s.tokens ls).map Token.kind = tokenKinds ls := by
  induction ls generalizing s with
  | nil => rfl
  | cons l ls ih =>
    have ih := ih (s.step l) fun text hm => hline text (List.mem_cons_of_mem _ hm)
    rw [Scanner.tokens, List.map_append, ih]
    cases l with
    | token kind text => rfl
    | layout text =>
      have hn := hline text List.mem_cons_self
      simp [Scanner.emit, hn, tokenKinds]
    | bad text => rfl

/-! ## Line ends -/

/-- Layout adds nothing but the end of a line. -/
theorem Scanner.emit_layout (s : Scanner) {l : Lexeme} (h : l.isLayout = true) :
    ∀ t ∈ s.emit l, t.kind = .semi := by
  intro t ht
  have hl : ∀ kind text, l ≠ .token kind text := by
    rintro kind text rfl
    cases h
  rcases s.emit_cases hl with he | he <;> rw [he] at ht
  · cases ht
  · rw [List.mem_singleton.1 ht]
    rfl

theorem Scanner.tokens_layout (s : Scanner) {gap : List Lexeme}
    (h : ∀ l ∈ gap, l.isLayout = true) : ∀ t ∈ s.tokens gap, t.kind = .semi := by
  induction gap generalizing s with
  | nil => simp
  | cons l gap ih =>
    obtain ⟨hl, h⟩ := List.forall_mem_cons.1 h
    exact List.forall_mem_append.2 ⟨s.emit_layout hl, ih _ h⟩

theorem Scanner.finish_kind (s : Scanner) : ∀ t ∈ s.finish, t.kind = .semi := by
  intro t ht
  rw [finish] at ht
  split at ht
  · rw [List.mem_singleton.1 ht]
    rfl
  · cases ht

/-! ## Where the scanner stands

The kinds and texts of tokens are the same wherever in a text and after whatever layout they stand;
only whether a line end would end a statement makes a difference. -/

/-- A token without its place. -/
def Token.face (t : Token) : Kind × String := (t.kind, t.text)

theorem Scanner.face_tokens {s s' : Scanner} (h : s.pending = s'.pending) (ls : List Lexeme) :
    (s.tokens ls).map Token.face = (s'.tokens ls).map Token.face := by
  induction ls generalizing s s' with
  | nil => rfl
  | cons l ls ih =>
    have hstep : (s.step l).pending = (s'.step l).pending := by
      cases l with
      | token kind text => rfl
      | layout text => rw [step_layout_pending, step_layout_pending, h]
      | bad text => exact h
    have hemit : (s.emit l).map Token.face = (s'.emit l).map Token.face := by
      cases l with
      | token kind text => rfl
      | layout text =>
        rw [emit, emit, h]
        split <;> rfl
      | bad text => rfl
    rw [tokens, tokens, List.map_append, List.map_append, hemit, ih hstep]

/-- The first token of some lexemes that close all their brackets is no closing bracket. -/
theorem Scanner.first_tokens {s : Scanner} (hs : s.pending = false) {ls : List Lexeme}
    (hb : Balanced ls) (hw : ∃ kind text, .token kind text ∈ ls) :
    ∃ t ts, s.tokens ls = t :: ts ∧ t.kind.closes = false := by
  induction ls generalizing s with
  | nil =>
    obtain ⟨kind, text, hm⟩ := hw
    exact absurd hm List.not_mem_nil
  | cons l ls ih =>
    -- Nothing but a token adds a token here.
    have hrest : (∀ kind text, l ≠ .token kind text) → (s.step l).pending = false →
        s.emit l = [] → ∃ t ts, s.tokens (l :: ls) = t :: ts ∧ t.kind.closes = false := by
      intro hl hp he
      have hb : Balanced ls := by
        rw [Balanced, ← depthAfter_other hl]
        exact hb
      obtain ⟨kind, text, hm⟩ := hw
      rw [tokens, he, List.nil_append]
      exact ih hp hb ⟨kind, text, (List.mem_cons.1 hm).resolve_left (Ne.symm (hl kind text))⟩
    cases l with
    | token kind text =>
      refine ⟨_, _, tokens_token s kind text ls, ?_⟩
      by_cases ho : kind.opens = true
      · have hall : ∀ k : Kind, k.opens = true → k.closes = false := by
          intro k
          cases k <;> decide
        exact hall kind ho
      · by_contra hc
        simp [Balanced, depthAfter, ho, show kind.closes = true by simpa using hc] at hb
    | layout text =>
      refine hrest (by simp) ?_ (by simp [emit, hs])
      rw [step_layout_pending, hs, Bool.false_and]
    | bad text => exact hrest (by simp) hs rfl

end Understudy.Source

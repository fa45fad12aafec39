import Understudy.Proofs.Scanning

/-!
# Token spans

Where the tokens of a text stand in it. A text is tiled by gaps and tokens (`Tiles`): a gap is
layout and nothing else, a token stands where its offset says, and a semicolon is inserted behind a
token that can end a statement if a line ends in the gap behind it, or if nothing else follows.

> **The tokens of a text account for the whole of it** (`tokenize_accounts`).

The scanner does not see gaps as a whole. It puts the semicolon where the line ends and goes on with
the same gap, so the tiling is proved for a scanner that stands inside a gap.
-/

set_option autoImplicit false

namespace Understudy.Source

open Text

/-! ## Gaps -/

/-- Whether a text is a row of blanks, line ends, byte order marks and complete comments, where
`rest` follows it. A line comment is complete where its line ends. -/
inductive IsGap (rest : List Char) : List Char → Prop
  | nil : IsGap rest []
  | blank {c : Char} {cs : List Char} : isLayoutBlank c = true → IsGap rest cs →
      IsGap rest (c :: cs)
  | newline {cs : List Char} : IsGap rest cs → IsGap rest ('\n' :: cs)
  | lineComment {text cs : List Char} : '\n' ∉ text → (∀ c ∈ (cs ++ rest).head?, c = '\n') →
      IsGap rest cs → IsGap rest ('/' :: '/' :: (text ++ cs))
  | blockComment {text cs : List Char} : ¬ ['*', '/'] <:+: text ++ ['*'] → IsGap rest cs →
      IsGap rest ('/' :: '*' :: (text ++ '*' :: '/' :: cs))

theorem IsGap.append {rest a b : List Char} (ha : IsGap (b ++ rest) a) (hb : IsGap rest b) :
    IsGap rest (a ++ b) := by
  induction ha with
  | nil => exact hb
  | blank hc _ ih => exact .blank hc ih
  | newline _ ih => exact .newline ih
  | lineComment hn hend _ ih =>
    rw [List.cons_append, List.cons_append, List.append_assoc]
    exact .lineComment hn (by rwa [List.append_assoc]) ih
  | blockComment hfirst _ ih =>
    rw [List.cons_append, List.cons_append, List.append_assoc]
    exact .blockComment hfirst ih

/-- Of what follows only the first character matters. -/
theorem IsGap.congr {rest rest' gap : List Char} (h : IsGap rest gap)
    (hhead : rest'.head? = rest.head?) : IsGap rest' gap := by
  induction h with
  | nil => exact .nil
  | blank hc _ ih => exact .blank hc ih
  | newline _ ih => exact .newline ih
  | lineComment hn hend _ ih =>
    refine .lineComment hn ?_ ih
    rwa [List.head?_append, hhead, ← List.head?_append]
  | blockComment hfirst _ ih => exact .blockComment hfirst ih

theorem head?_dropWhile_newline (cs : List Char) :
    ∀ c ∈ (cs.dropWhile (· != '\n')).head?, c = '\n' := by
  intro c hc
  have hnot := List.head?_dropWhile_not (· != '\n') cs
  rw [Option.mem_def.1 hc] at hnot
  simpa using hnot

theorem isGap_line (cs : List Char) :
    IsGap (cs.dropWhile (· != '\n')) ('/' :: '/' :: cs.takeWhile (· != '\n')) := by
  have hnone : '\n' ∉ cs.takeWhile (· != '\n') := by
    intro hm
    have hall := List.all_eq_true.1 List.all_takeWhile _ hm
    simp at hall
  have hline := IsGap.lineComment hnone (head?_dropWhile_newline cs) .nil
  rwa [List.append_nil] at hline

section Next

variable {c : Char} {cs text rest : List Char}

theorem operatorOrBad_ne_layout : operatorOrBad c cs ≠ (.layout text, rest) := by
  intro h
  unfold operatorOrBad at h
  cases ho : operator? (c :: cs) with
  | none => simp [ho] at h
  | some p =>
    obtain ⟨q, -, hl, -⟩ := operator?_eq_some ho
    rw [ho, Option.getD_some] at h
    simp [h] at hl

/-- **Layout is a gap.** -/
theorem isGap_of_next (h : next c cs = (.layout text, rest)) : IsGap rest text := by
  cases isFirst_of_next h rfl with
  | blank hc h =>
    obtain ⟨⟨⟩, -⟩ := Prod.mk.inj h
    rcases Bool.or_eq_true_iff.1 hc with hc | hc
    · rw [beq_iff_eq.1 hc]
      exact .newline .nil
    · exact .blank hc .nil
  | word _ h | number _ h | point _ _ _ h => cases h
  | line _ _ h =>
    obtain ⟨⟨⟩, rfl⟩ := Prod.mk.inj h
    exact isGap_line _
  | enclosed e hm _ hl =>
    cases e with
    | comment =>
      cases hl
      obtain ⟨inner, rfl, hfirst⟩ := blockCommentTail?_first hm
      exact .blockComment hfirst .nil
    | raw | string | rune => cases hl
  | sign _ _ _ _ _ h => exact absurd h operatorOrBad_ne_layout

end Next

/-! ## Tilings -/

/-- Whether some tokens are the semicolon that a line end stands for, or none. -/
def IsLineEnd (inserted : Bool) (ms : List Token) : Prop :=
  ms.map (fun m => (m.kind, m.text)) = if inserted then [(.semi, "")] else []

/-- Whether a text that stands behind `pre` is tiled by gaps and tokens, where the token before it,
if there is one, is of the kind `prev`. -/
inductive Tiles : List Char → Option Kind → List Char → List Token → Prop
  | done {pre gap : List Char} {prev : Option Kind} {ms : List Token} : IsGap [] gap →
      IsLineEnd (prev.any Kind.endsStatement) ms → Tiles pre prev gap ms
  | token {pre gap rest : List Char} {prev : Option Kind} {ms ts : List Token} {t : Token} :
      IsGap (t.text.toList ++ rest) gap → t.text ≠ "" → t.start = byteSize (pre ++ gap) →
      IsLineEnd (prev.any Kind.endsStatement && gap.contains '\n') ms →
      Tiles (pre ++ gap ++ t.text.toList) (some t.kind) rest ts →
      Tiles pre prev (gap ++ (t.text.toList ++ rest)) (ms ++ t :: ts)

@[simp] theorem byteSize_append (as bs : List Char) :
    byteSize (as ++ bs) = byteSize as + byteSize bs := by
  induction as with
  | nil => exact (Nat.zero_add _).symm
  | cons a as ih => rw [List.cons_append, byteSize, byteSize, ih, Nat.add_assoc]

theorem utf8ByteSize_eq (s : String) : s.utf8ByteSize = byteSize s.toList := by
  have hlist : ∀ cs : List Char, (String.ofList cs).utf8ByteSize = byteSize cs := by
    intro cs
    induction cs with
    | nil => rfl
    | cons c cs ih =>
      rw [String.ofList_cons, String.utf8ByteSize_append, String.utf8ByteSize_singleton, ih]
      rfl
  simpa using hlist s.toList

theorem Token.stop_eq (t : Token) : t.stop = t.start + byteSize t.text.toList := by
  rw [Token.stop, utf8ByteSize_eq]

theorem isLineEnd_finish (s : Scanner) {ms : List Token} {ended : Bool} {prev : Option Kind}
    (hpending : s.pending = (prev.any Kind.endsStatement && !ended))
    (hms : IsLineEnd (prev.any Kind.endsStatement && ended) ms) :
    IsLineEnd (prev.any Kind.endsStatement) (ms ++ s.finish) := by
  unfold IsLineEnd at hms ⊢
  rw [List.map_append, hms, Scanner.finish, hpending]
  cases prev.any Kind.endsStatement <;> cases ended <;> rfl

theorem isLineEnd_emit (s : Scanner) {ms : List Token} {text : List Char} {ended : Bool}
    {prev : Option Kind} (hpending : s.pending = (prev.any Kind.endsStatement && !ended))
    (hms : IsLineEnd (prev.any Kind.endsStatement && ended) ms) :
    (s.step (.layout text)).pending =
        (prev.any Kind.endsStatement && !(ended || text.contains '\n')) ∧
      IsLineEnd (prev.any Kind.endsStatement && (ended || text.contains '\n'))
        (ms ++ s.emit (.layout text)) := by
  unfold IsLineEnd at hms ⊢
  rw [List.map_append, hms, Scanner.emit, Scanner.step, hpending]
  cases prev.any Kind.endsStatement <;> cases ended <;> cases text.contains '\n' <;>
    exact ⟨rfl, rfl⟩

/-- **The lexemes of a text tile it.** The scanner stands behind a part of a gap; whether a
statement is still open there, and whether a semicolon has been inserted, both depend on whether a
line has ended in this part. -/
theorem Scanner.tiles (s : Scanner) {pre gap cs : List Char} {prev : Option Kind} {ms : List Token}
    (hgood : ∀ l ∈ lexemes cs, l.isBad = false) (hgap : IsGap cs gap)
    (hoffset : s.offset = byteSize (pre ++ gap))
    (hpending : s.pending = (prev.any Kind.endsStatement && !gap.contains '\n'))
    (hms : IsLineEnd (prev.any Kind.endsStatement && gap.contains '\n') ms) :
    Tiles pre prev (gap ++ cs)
      (ms ++ (s.tokens (lexemes cs) ++ (s.after (lexemes cs)).finish)) := by
  fun_induction lexemes cs generalizing s pre gap prev ms with
  | case1 =>
    rw [List.append_nil, Scanner.tokens_nil, List.nil_append, Scanner.after_nil]
    exact .done hgap (isLineEnd_finish s hpending hms)
  | case2 c cs ih =>
    obtain ⟨hl, hrest⟩ := List.forall_mem_cons.1 hgood
    have happ := next_append c cs
    have hne := next_text_ne_nil c cs
    cases hnext : next c cs with
    | mk l rest =>
      rw [hnext] at hl hrest happ hne ih
      -- A token closes the gap in front of it and begins an empty one; layout makes the gap longer.
      cases l with
      | bad text => exact absurd hl (by simp [Lexeme.isBad])
      | token kind text =>
        have ih := @ih (s.step (.token kind text)) (pre ++ gap ++ text) [] (some kind) [] hrest .nil
          (by simp [Scanner.step, hoffset, Nat.add_assoc])
          (by simp [Scanner.step]) (by simp [IsLineEnd])
        simp only [Lexeme.text_token] at happ hne
        rw [← happ] at hgap ⊢
        have ht : (s.token kind text).text.toList = text := by simp
        have htile := @Tiles.token pre gap rest prev ms _ (s.token kind text) (by rwa [ht])
          (fun he => hne (by simpa using congrArg String.toList he)) hoffset hms
          (by rw [ht]; exact ih)
        rw [ht] at htile
        exact htile
      | layout text =>
        simp only [Lexeme.text_layout] at happ
        rw [← happ] at hgap ⊢
        have hemit := @isLineEnd_emit s ms text _ prev hpending hms
        rw [← List.contains_append] at hemit
        have hstep : (s.step (.layout text)).offset = byteSize (pre ++ (gap ++ text)) := by
          rw [Scanner.step]
          split <;> simp [hoffset, Nat.add_assoc]
        have ih := @ih (s.step (.layout text)) pre (gap ++ text) prev (ms ++ s.emit (.layout text))
          hrest (hgap.append (isGap_of_next hnext)) hstep hemit.1 hemit.2
        rw [List.append_assoc, List.append_assoc] at ih
        rw [Scanner.tokens, Scanner.after_cons, List.append_assoc (s.emit _)]
        exact ih

/-! ## Tokens with text and tokens without -/

section Splits

variable {ns ms xs ys ts : List Token} {t : Token}

/-- A list is split in front of its first token with text in one way only. -/
theorem split_first (he : ms ++ ys = ns ++ t :: ts) (hm : ∀ m ∈ ms, m.text = "")
    (hy : ∀ u ∈ ys.head?, u.text ≠ "") (hn : ∀ n ∈ ns, n.text = "") (ht : t.text ≠ "") :
    ms = ns ∧ ys = t :: ts := by
  induction ns generalizing ms with
  | nil =>
    cases ms with
    | nil => exact ⟨rfl, he⟩
    | cons m ms =>
      rw [List.nil_append] at he
      rw [← (List.cons.inj he).1] at ht
      exact absurd (hm m List.mem_cons_self) ht
  | cons n ns ih =>
    obtain ⟨hn, hns⟩ := List.forall_mem_cons.1 hn
    cases ms with
    | nil =>
      rw [List.nil_append] at he
      rw [he] at hy
      exact absurd hn (hy n rfl)
    | cons m ms =>
      obtain ⟨rfl, htail⟩ := List.cons.inj he
      obtain ⟨rfl, hys⟩ := ih htail (fun m hm' => hm m (List.mem_cons_of_mem _ hm')) hns
      exact ⟨rfl, hys⟩

/-- What ends with a token with text goes at least to the first such token. -/
theorem split_last (he : xs ++ ys = ns ++ t :: ts) (hne : xs ≠ [])
    (hx : ∀ u ∈ xs.getLast?, u.text ≠ "") (hn : ∀ n ∈ ns, n.text = "") :
    ∃ zs, xs = ns ++ t :: zs ∧ ts = zs ++ ys := by
  induction ns generalizing xs with
  | nil =>
    obtain ⟨x, xs, rfl⟩ := List.exists_cons_of_ne_nil hne
    obtain ⟨rfl, htail⟩ := List.cons.inj he
    exact ⟨xs, rfl, htail.symm⟩
  | cons n ns ih =>
    obtain ⟨hn, hns⟩ := List.forall_mem_cons.1 hn
    obtain ⟨x, xs, rfl⟩ := List.exists_cons_of_ne_nil hne
    obtain ⟨rfl, htail⟩ := List.cons.inj he
    cases xs with
    | nil => exact absurd hn (hx x rfl)
    | cons y xs =>
      obtain ⟨zs, hxs, hts⟩ := ih htail (List.cons_ne_nil y xs) (by simpa using hx) hns
      exact ⟨zs, by rw [hxs]; rfl, hts⟩

theorem IsLineEnd.text_eq {inserted : Bool} (h : IsLineEnd inserted ms) : ∀ m ∈ ms, m.text = "" := by
  intro m hm
  have hmem : (m.kind, m.text) ∈ ms.map fun m => (m.kind, m.text) := List.mem_map_of_mem hm
  rw [h] at hmem
  split at hmem
  · exact (Prod.mk.inj (List.mem_singleton.1 hmem)).2
  · exact absurd hmem List.not_mem_nil

end Splits

/-! ## What a tiling says -/

namespace Tiles

variable {pre cs : List Char} {prev : Option Kind} {ts : List Token}

/-- A token stands in the text where its offset says, behind what has been tiled. -/
theorem spans (h : Tiles pre prev cs ts) : ∀ t ∈ ts, t.text ≠ "" →
    ∃ before after, pre ++ cs = before ++ t.text.toList ++ after ∧ t.start = byteSize before ∧
      byteSize pre ≤ t.start := by
  induction h with
  | done _ hms =>
    intro t ht hne
    exact absurd (hms.text_eq t ht) hne
  | @token pre gap rest prev ms ts u _ _ hstart hms _ ih =>
    intro t ht hne
    rcases List.mem_append.1 ht with ht | ht
    · exact absurd (hms.text_eq t ht) hne
    rcases List.mem_cons.1 ht with rfl | ht
    · refine ⟨pre ++ gap, rest, by simp, hstart, ?_⟩
      rw [hstart, byteSize_append]
      exact Nat.le_add_right _ _
    · obtain ⟨before, after, he, hs, hle⟩ := ih t ht hne
      refine ⟨before, after, by rw [← he]; simp, hs, ?_⟩
      simp only [byteSize_append] at hle
      omega

/-- Tokens with text stand one behind the other. -/
theorem ordered (h : Tiles pre prev cs ts) :
    (ts.filter fun t => t.text ≠ "").Pairwise fun t u => t.stop ≤ u.start := by
  induction h with
  | done _ hms =>
    rw [List.filter_eq_nil_iff.2 fun t ht => by simp [hms.text_eq t ht]]
    exact List.Pairwise.nil
  | @token pre gap rest prev ms ts u _ hne hstart hms htail ih =>
    rw [List.filter_append, List.filter_eq_nil_iff.2 fun t ht => by simp [hms.text_eq t ht],
      List.nil_append, List.filter_cons_of_pos (by simpa using hne)]
    refine List.Pairwise.cons (fun t ht => ?_) ih
    obtain ⟨ht, htne⟩ := List.mem_filter.1 ht
    obtain ⟨-, -, -, -, hle⟩ := htail.spans t ht (by simpa using htne)
    rwa [Token.stop_eq, hstart, ← byteSize_append]

/-- Between two tokens with text, before the first and behind the last there is a gap. -/
theorem gaps (h : Tiles pre prev cs ts) {xs ms ys : List Token} (he : ts = xs ++ (ms ++ ys))
    (hx : ∀ t ∈ xs.getLast?, t.text ≠ "") (hm : ∀ m ∈ ms, m.text = "")
    (hy : ∀ u ∈ ys.head?, u.text ≠ "") :
    ∃ before gap after, pre ++ cs = before ++ gap ++ after ∧
      (xs.getLast?.map Token.stop).getD (byteSize pre) = byteSize before ∧
      (ys.head?.map Token.start).getD (byteSize (pre ++ cs)) = byteSize (before ++ gap) ∧
      IsGap ((ys.head?.map Token.text).getD "").toList gap ∧
      IsLineEnd (((xs.getLast?.map Token.kind).or prev).any Kind.endsStatement &&
        (ys.isEmpty || gap.contains '\n')) ms := by
  induction h generalizing xs with
  | @done pre gap prev ns hgap hns =>
    -- None of the tokens has text, so all of them are between.
    have htext : ∀ t ∈ xs ++ (ms ++ ys), t.text = "" := he ▸ hns.text_eq
    have hxs : xs = [] := by
      refine List.getLast?_eq_none_iff.1 (Option.eq_none_iff_forall_not_mem.2 fun t ht => hx t ht ?_)
      exact htext t (List.mem_append_left _ (List.mem_of_getLast? ht))
    have hys : ys = [] := by
      refine List.head?_eq_none_iff.1 (Option.eq_none_iff_forall_not_mem.2 fun u hu => hy u hu ?_)
      exact htext u (List.mem_append_right _ (List.mem_append_right _ (List.mem_of_head? hu)))
    subst hxs hys
    rw [List.nil_append, List.append_nil] at he
    subst he
    exact ⟨pre, gap, [], by simp, rfl, rfl, hgap, by simpa using hns⟩
  | @token pre gap rest prev ns ts u hgap hne hstart hns htail ih =>
    cases xs with
    | nil =>
      rw [List.nil_append] at he
      obtain ⟨rfl, rfl⟩ := split_first he.symm hm hy hns.text_eq hne
      refine ⟨pre, gap, u.text.toList ++ rest, by simp, rfl, hstart, ?_, by simpa using hns⟩
      obtain ⟨c, cs, hc⟩ := List.exists_cons_of_ne_nil (l := u.text.toList) (by simpa using hne)
      exact hgap.congr (by simp [hc])
    | cons x xs =>
      obtain ⟨zs, hxs, hts⟩ := split_last he.symm (List.cons_ne_nil x xs) hx hns.text_eq
      have hlast : (x :: xs).getLast? = some (zs.getLast?.getD u) := by
        rw [hxs, List.getLast?_append, List.getLast?_cons]
        rfl
      rw [hlast] at hx ⊢
      obtain ⟨before, between, after, happ, hstop, hend, hgap, hms⟩ :=
        ih hts fun t ht => hx t (by simp [Option.mem_def.1 ht])
      refine ⟨before, between, after, by rw [← happ]; simp, ?_, ?_⟩
      · rw [← hstop]
        cases zs.getLast? <;> simp [Token.stop_eq, hstart, Nat.add_assoc]
      · refine ⟨by simpa [List.append_assoc] using hend, hgap, ?_⟩
        cases hz : zs.getLast? <;> rw [hz] at hms <;> exact hms

end Tiles

/-! ## The tokens of a text -/

/-- Whether `text` stands in a text from the byte `start` to in front of the byte `stop`. -/
def IsSlice (source : String) (start stop : Nat) (text : String) : Prop :=
  ∃ before after, source = before ++ text ++ after ∧ start = before.utf8ByteSize ∧
    stop = (before ++ text).utf8ByteSize

theorem isSlice_iff {source text : String} {start stop : Nat} :
    IsSlice source start stop text ↔ ∃ before after,
      source.toList = before ++ text.toList ++ after ∧ start = byteSize before ∧
        stop = byteSize (before ++ text.toList) := by
  constructor
  · rintro ⟨before, after, rfl, rfl, rfl⟩
    exact ⟨before.toList, after.toList, by simp, utf8ByteSize_eq _, by simp [utf8ByteSize_eq]⟩
  · rintro ⟨before, after, he, rfl, rfl⟩
    refine ⟨String.ofList before, String.ofList after, ?_, by simp [utf8ByteSize_eq],
      by simp [utf8ByteSize_eq]⟩
    rw [← String.toList_inj, he]
    simp

/-- Where some tokens end. -/
def endOffset (ts : List Token) : Nat := (ts.getLast?.map Token.stop).getD 0

/-- Where some tokens begin, or where the text ends. -/
def beginOffset (source : String) (ts : List Token) : Nat :=
  (ts.head?.map Token.start).getD source.utf8ByteSize

/-- The text that some tokens begin with. -/
def beginText (ts : List Token) : List Char := ((ts.head?.map Token.text).getD "").toList

theorem tokenize_tiles {source : String} {ts : List Token} (h : tokenize source = .ok ts) :
    Tiles [] none source.toList ts := by
  obtain ⟨hgood, rfl⟩ := tokenize_ok h
  exact @Scanner.tiles .start [] [] source.toList none [] hgood .nil rfl rfl rfl

/-- Whether some tokens account for the whole of a text. -/
structure AccountsFor (source : String) (ts : List Token) : Prop where
  /-- Tokens with text stand where their offsets say. -/
  spans : ∀ t ∈ ts, t.text ≠ "" → t.start < t.stop ∧ IsSlice source t.start t.stop t.text
  ordered : (ts.filter fun t => t.text ≠ "").Pairwise fun t u => t.stop ≤ u.start
  /-- What is left in front of them, between them and behind them is layout, and there is a token
  without text only where a statement ends with a line or with the text. -/
  gaps : ∀ xs ms ys, ts = xs ++ (ms ++ ys) → (∀ t ∈ xs.getLast?, t.text ≠ "") →
    (∀ m ∈ ms, m.text = "") → (∀ u ∈ ys.head?, u.text ≠ "") →
    ∃ gap, IsSlice source (endOffset xs) (beginOffset source ys) gap ∧
      IsGap (beginText ys) gap.toList ∧
      IsLineEnd ((xs.getLast?.any fun t => t.kind.endsStatement) &&
        (ys.isEmpty || gap.toList.contains '\n')) ms

/-- **The tokens of a text account for the whole of it.** -/
theorem tokenize_accounts {source : String} {ts : List Token} (h : tokenize source = .ok ts) :
    AccountsFor source ts := by
  have htiles := tokenize_tiles h
  refine ⟨fun t ht hne => ?_, htiles.ordered, fun xs ms ys he hx hm hy => ?_⟩
  · obtain ⟨before, after, happ, hstart, -⟩ := htiles.spans t ht hne
    have hpos : t.start < t.stop := by
      have hsize : 0 < t.text.utf8ByteSize :=
        Nat.pos_of_ne_zero fun hz => hne (String.utf8ByteSize_eq_zero_iff.1 hz)
      unfold Token.stop
      omega
    refine ⟨hpos, isSlice_iff.2 ⟨before, after, happ, hstart, ?_⟩⟩
    rw [Token.stop_eq, hstart, byteSize_append]
  · obtain ⟨before, gap, after, happ, hend, hbegin, hgap, hms⟩ := htiles.gaps he hx hm hy
    refine ⟨String.ofList gap, isSlice_iff.2 ⟨before, after, ?_, hend, ?_⟩, ?_, ?_⟩
    · rw [String.toList_ofList]
      exact happ
    · rw [String.toList_ofList, ← hbegin, beginOffset, utf8ByteSize_eq]
      rfl
    · rw [String.toList_ofList]
      exact hgap
    · rw [String.toList_ofList]
      cases hl : xs.getLast? <;> rw [hl] at hms <;> exact hms

/-- A comment with a line end in it ends the statement before it, and so does the end of the
text. -/
theorem tokenize_accounts_comment : AccountsFor "a /*\n*/b" [
    { kind := .ident, gap := "", text := "a", start := 0 },
    { kind := .semi, gap := " ", text := "", start := 2 },
    { kind := .ident, gap := "/*\n*/", text := "b", start := 7 },
    { kind := .semi, gap := "", text := "", start := 8 }] :=
  tokenize_accounts (by cbv)

end Understudy.Source

import Understudy.Proofs.Scanning

/-!
# Running parsers

What the small parsers do in front of a token that is known, as rules for the simplifier, and what
the parsers of lists make of a list of entries.

A list is read right if every entry is: `ReadsBefore stop item x ts` says that `item` reads `x`
off the tokens `ts` in front of every token of a kind in `stop`. Where the list has an end of its
own, `ts` may not begin with such a token either (`EntryBefore`). `Items` puts the tokens of
several entries together, with a separator between neighbours. There is one lemma for each of the
three parsers of lists: they differ only in what may stand at the end. The entries themselves are
written on one line (`items_intercalate`) or on lines of their own (`items_lines`).
-/

set_option autoImplicit false

namespace Understudy.Source

namespace Parser

variable {α β : Type}

/-! ## One step -/

@[simp] theorem bind_apply (p : Parser α) (f : α → Parser β) (ts : List Token) :
    (p >>= f) ts =
      match p ts with
      | .ok (a, rest) => f a rest
      | .error fault => .error fault := rfl

theorem bind_eq_ok {p : Parser α} {f : α → Parser β} {ts rest : List Token} {b : β}
    (h : (p >>= f) ts = .ok (b, rest)) :
    ∃ a mid, p ts = .ok (a, mid) ∧ f a mid = .ok (b, rest) := by
  rw [bind_apply] at h
  cases hp : p ts with
  | error fault => simp [hp] at h
  | ok r => exact ⟨r.1, r.2, rfl, by simpa [hp] using h⟩

@[simp] theorem pure_apply (a : α) (ts : List Token) : (pure a : Parser α) ts = .ok (a, ts) := rfl

@[simp] theorem map_apply (f : α → β) (p : Parser α) (ts : List Token) :
    (f <$> p) ts =
      match p ts with
      | .ok (a, rest) => .ok (f a, rest)
      | .error fault => .error fault := rfl

@[simp] theorem remaining_apply (ts : List Token) : remaining ts = .ok (ts, ts) := rfl

@[simp] theorem continueAt_apply (rest ts : List Token) : continueAt rest ts = .ok ((), rest) :=
  rfl

@[simp] theorem peek_cons (t : Token) (ts : List Token) :
    peek (t :: ts) = .ok (some t.kind, t :: ts) := rfl

@[simp] theorem advance_cons (t : Token) (ts : List Token) : advance (t :: ts) = .ok ((), ts) :=
  rfl

@[simp] theorem isAt_cons (kind : Kind) (t : Token) (ts : List Token) :
    isAt kind (t :: ts) = .ok (t.kind == kind, t :: ts) := by
  simp [isAt]

theorem eat_of_eq {kind : Kind} {t : Token} (h : t.kind = kind) (ts : List Token) :
    eat kind (t :: ts) = .ok (true, ts) := by
  simp [eat, h]

theorem eat_of_ne {kind : Kind} {t : Token} (h : t.kind ≠ kind) (ts : List Token) :
    eat kind (t :: ts) = .ok (false, t :: ts) := by
  simp [eat, h]

theorem expect_of_eq {kind : Kind} {t : Token} (h : t.kind = kind) (what : String)
    (ts : List Token) : expect kind what (t :: ts) = .ok (t, ts) := by
  simp [expect, h]

theorem ident_of_eq {t : Token} (h : t.kind = .ident) (ts : List Token) :
    ident (t :: ts) = .ok (t.text, ts) := by
  simp [ident, expect_of_eq h]

/-! The same for the token of a lexeme, where the kinds are known and decide by themselves. -/

@[simp] theorem eat_token (s : Scanner) (k kind : Kind) (text : List Char) (ts : List Token) :
    eat k (s.token kind text :: ts) =
      if kind = k then .ok (true, ts) else .ok (false, s.token kind text :: ts) := by
  simp [eat]

@[simp] theorem expect_token (s : Scanner) (kind : Kind) (what : String) (text : List Char)
    (ts : List Token) :
    expect kind what (s.token kind text :: ts) = .ok (s.token kind text, ts) :=
  expect_of_eq rfl what ts

@[simp] theorem ident_token (s : Scanner) (text : List Char) (ts : List Token) :
    ident (s.token .ident text :: ts) = .ok (String.ofList text, ts) :=
  ident_of_eq rfl ts

/-! ## Lists -/

/-- Whether `item` reads `x` off the tokens `ts` before every token of a kind in `stop`. -/
def ReadsBefore (stop : List Kind) (item : Parser α) (x : α) (ts : List Token) : Prop :=
  ∀ t rest, t.kind ∈ stop → item (ts ++ t :: rest) = .ok (x, t :: rest)

/-- The same, where the tokens `ts` do not begin with such a token. -/
def EntryBefore (stop : List Kind) (item : Parser α) (x : α) (ts : List Token) : Prop :=
  (∃ t us, ts = t :: us ∧ t.kind ∉ stop) ∧ ReadsBefore stop item x ts

/-- The tokens of some entries, each of them as `R` says, with separators between them. -/
inductive Items (sep : Kind) (R : α → List Token → Prop) : List α → List Token → Prop
  | nil : Items sep R [] []
  | last {x : α} {ts : List Token} : R x ts → Items sep R [x] ts
  | cons {x y : α} {xs : List α} {t : Token} {ts us : List Token} : R x ts → t.kind = sep →
      Items sep R (y :: xs) us → Items sep R (x :: y :: xs) (ts ++ t :: us)

theorem Items.map {sep : Kind} {R : α → List Token → Prop} {R' : β → List Token → Prop}
    {f : α → β} {xs : List α} {ts : List Token} (h : Items sep R xs ts)
    (hR : ∀ x ∈ xs, ∀ ts, R x ts → R' (f x) ts) : Items sep R' (xs.map f) ts := by
  induction h with
  | nil => exact .nil
  | last hx => exact .last (hR _ (List.mem_singleton_self _) _ hx)
  | cons hx ht _ ih =>
    exact .cons (hR _ List.mem_cons_self _ hx) ht
      (ih fun x hm => hR x (List.mem_cons_of_mem _ hm))

theorem Items.mono {sep : Kind} {R R' : α → List Token → Prop} {xs : List α} {ts : List Token}
    (h : Items sep R xs ts) (hR : ∀ x ∈ xs, ∀ ts, R x ts → R' x ts) : Items sep R' xs ts := by
  simpa using h.map (f := id) hR

section Lists

variable {item : Parser α} {xs : List α} {ts : List Token} {close sep : Kind}

theorem commaListLoop_close (what : String) {t : Token} (ht : t.kind = close)
    (rest : List Token) {n : Nat} (hn : 0 < n) :
    commaListLoop close what item n (t :: rest) = .ok ([], rest) := by
  obtain ⟨n, rfl⟩ := Nat.exists_eq_add_one.2 hn
  simp [commaListLoop, eat_of_eq ht]

theorem commaListLoop_items (h : Items .comma (EntryBefore [.comma, close] item) xs ts)
    (hc : close ≠ .comma) (what : String) {t : Token} (ht : t.kind = close) (rest : List Token)
    {n : Nat} (hn : ts.length < n) :
    commaListLoop close what item n (ts ++ t :: rest) = .ok (xs, rest) := by
  induction h generalizing n with
  | nil => exact commaListLoop_close what ht rest hn
  | @last x ts hx =>
    obtain ⟨⟨u, us, rfl, hu⟩, hread⟩ := hx
    obtain ⟨n, rfl⟩ := Nat.exists_eq_add_one.2 (Nat.zero_lt_of_lt hn)
    simp only [List.mem_cons, List.not_mem_nil, or_false, not_or] at hu
    have hr := hread t rest (by simp [ht])
    have hend : commaListLoop close what item n (t :: rest) = .ok ([], rest) :=
      commaListLoop_close what ht rest (by simp at hn; omega)
    simp only [List.cons_append] at hr
    simp [commaListLoop, eat_of_ne hu.2, hr, ht, hend]
  | @cons x y xs v ts us hx hv _ ih =>
    obtain ⟨⟨u, us', rfl, hu⟩, hread⟩ := hx
    obtain ⟨n, rfl⟩ := Nat.exists_eq_add_one.2 (Nat.zero_lt_of_lt hn)
    simp only [List.mem_cons, List.not_mem_nil, or_false, not_or] at hu
    have hr := hread v (us ++ t :: rest) (by simp [hv])
    have ih := @ih n (by simp at hn; omega)
    have hvc : v.kind ≠ close := by rw [hv]; exact Ne.symm hc
    simp only [List.cons_append] at hr
    simp [commaListLoop, eat_of_ne hu.2, hr, hvc, expect_of_eq hv, ih]

theorem commaList_items (h : Items .comma (EntryBefore [.comma, close] item) xs ts)
    (hc : close ≠ .comma) (what : String) {t : Token} (ht : t.kind = close) (rest : List Token) :
    commaList close what item (ts ++ t :: rest) = .ok (xs, rest) := by
  simp only [commaList, bind_apply, remaining_apply]
  refine commaListLoop_items h hc what ht rest ?_
  simp only [List.length_append, List.length_cons]
  omega

theorem semicolonListLoop_close (what : String) (hc : close ≠ .semi) {tail : List Token}
    (htail : ∀ u ∈ tail, u.kind = .semi) {t : Token} (ht : t.kind = close) (rest : List Token)
    {n : Nat} (hn : tail.length < n) :
    semicolonListLoop close what item n (tail ++ t :: rest) = .ok ([], rest) := by
  induction tail generalizing n with
  | nil =>
    obtain ⟨n, rfl⟩ := Nat.exists_eq_add_one.2 hn
    simp [semicolonListLoop, eat_of_eq ht]
  | cons u tail ih =>
    obtain ⟨n, rfl⟩ := Nat.exists_eq_add_one.2 (Nat.zero_lt_of_lt hn)
    obtain ⟨hu, htail⟩ := List.forall_mem_cons.1 htail
    have huc : u.kind ≠ close := by rw [hu]; exact Ne.symm hc
    have ih := @ih htail n (by simp at hn; omega)
    simp [semicolonListLoop, eat_of_ne huc, eat_of_eq hu, ih]

theorem semicolonListLoop_items (h : Items .semi (EntryBefore [.semi, close] item) xs ts)
    (hc : close ≠ .semi) (what : String) {tail : List Token}
    (htail : ∀ u ∈ tail, u.kind = .semi) {t : Token} (ht : t.kind = close) (rest : List Token)
    {n : Nat} (hn : ts.length + tail.length < n) :
    semicolonListLoop close what item n (ts ++ (tail ++ t :: rest)) = .ok (xs, rest) := by
  -- A semicolon between two entries is taken with the first one; those behind the last are skipped.
  induction h generalizing n with
  | nil => exact semicolonListLoop_close what hc htail ht rest (by simpa using hn)
  | @last x ts hx =>
    obtain ⟨⟨u, us, rfl, hu⟩, hread⟩ := hx
    obtain ⟨n, rfl⟩ := Nat.exists_eq_add_one.2 (Nat.zero_lt_of_lt hn)
    simp only [List.mem_cons, List.not_mem_nil, or_false, not_or] at hu
    cases tail with
    | nil =>
      have hr := hread t rest (by simp [ht])
      have hend : semicolonListLoop close what item n ([] ++ t :: rest) = .ok ([], rest) :=
        semicolonListLoop_close what hc htail ht rest (by simp at hn ⊢; omega)
      simp only [List.cons_append] at hr
      simp only [List.nil_append] at hend
      simp [semicolonListLoop, eat_of_ne hu.2, eat_of_ne hu.1, hr, ht, hend]
    | cons v tail =>
      obtain ⟨hv, htail⟩ := List.forall_mem_cons.1 htail
      have hvc : v.kind ≠ close := by rw [hv]; exact Ne.symm hc
      have hr := hread v (tail ++ t :: rest) (by simp [hv])
      have hend : semicolonListLoop close what item n (tail ++ t :: rest) = .ok ([], rest) :=
        semicolonListLoop_close what hc htail ht rest (by simp at hn ⊢; omega)
      simp only [List.cons_append] at hr
      simp [semicolonListLoop, eat_of_ne hu.2, eat_of_ne hu.1, hr, hvc, expect_of_eq hv, hend]
  | @cons x y xs v ts us hx hv _ ih =>
    obtain ⟨⟨u, us', rfl, hu⟩, hread⟩ := hx
    obtain ⟨n, rfl⟩ := Nat.exists_eq_add_one.2 (Nat.zero_lt_of_lt hn)
    simp only [List.mem_cons, List.not_mem_nil, or_false, not_or] at hu
    have hr := hread v (us ++ (tail ++ t :: rest)) (by simp [hv])
    have ih := @ih n (by simp at hn ⊢; omega)
    have hvc : v.kind ≠ close := by rw [hv]; exact Ne.symm hc
    simp only [List.cons_append] at hr
    simp [semicolonListLoop, eat_of_ne hu.2, eat_of_ne hu.1, hr, hvc, expect_of_eq hv, ih]

theorem semicolonList_items (h : Items .semi (EntryBefore [.semi, close] item) xs ts)
    (hc : close ≠ .semi) (what : String) {tail : List Token}
    (htail : ∀ u ∈ tail, u.kind = .semi) {t : Token} (ht : t.kind = close) (rest : List Token) :
    semicolonList close what item (ts ++ (tail ++ t :: rest)) = .ok (xs, rest) := by
  simp only [semicolonList, bind_apply, remaining_apply]
  refine semicolonListLoop_items h hc what htail ht rest ?_
  simp only [List.length_append, List.length_cons]
  omega

theorem separatedTail_stop {t : Token} (ht : t.kind ≠ sep) (rest : List Token) {n : Nat}
    (hn : 0 < n) : separatedTail sep item n (t :: rest) = .ok ([], t :: rest) := by
  obtain ⟨n, rfl⟩ := Nat.exists_eq_add_one.2 hn
  simp [separatedTail, eat_of_ne ht]

theorem separatedTail_items {stop : List Kind} (hs : sep ∉ stop) {t : Token}
    (ht : t.kind ∈ stop) (rest : List Token) {u : Token} (hu : u.kind = sep)
    (h : Items sep (ReadsBefore (sep :: stop) item) xs ts) (hxs : xs ≠ []) {n : Nat}
    (hn : ts.length + 1 < n) :
    separatedTail sep item n (u :: (ts ++ t :: rest)) = .ok (xs, t :: rest) := by
  have htn : t.kind ≠ sep := fun he => hs (he ▸ ht)
  obtain ⟨n, rfl⟩ := Nat.exists_eq_add_one.2 (Nat.zero_lt_of_lt hn)
  induction h generalizing n u with
  | nil => exact absurd rfl hxs
  | @last x ts hx =>
    have hend : separatedTail sep item n (t :: rest) = .ok ([], t :: rest) :=
      separatedTail_stop htn rest (by omega)
    have hr := hx t rest (List.mem_cons_of_mem _ ht)
    simp [separatedTail, eat_of_eq hu, hr, hend]
  | @cons x y xs v ts us hx hv _ ih =>
    obtain ⟨n, rfl⟩ := Nat.exists_eq_add_one.2 (by simp at hn; omega : 0 < n)
    have hr := hx v (us ++ t :: rest) (by simp [hv])
    have ih := @ih v hv (by simp) n (by simp at hn; omega)
    rw [separatedTail]
    simp only [bind_apply, eat_of_eq hu, List.append_assoc, List.cons_append] at hr ⊢
    simp [hr, ih]

theorem separated_items {stop : List Kind} (hs : sep ∉ stop) {t : Token} (ht : t.kind ∈ stop)
    (rest : List Token) (h : Items sep (ReadsBefore (sep :: stop) item) xs ts) (hxs : xs ≠ []) :
    separated sep item (ts ++ t :: rest) = .ok (xs, t :: rest) := by
  have htn : t.kind ≠ sep := fun he => hs (he ▸ ht)
  cases h with
  | nil => exact absurd rfl hxs
  | last hx =>
    have hr := hx t rest (List.mem_cons_of_mem _ ht)
    simp [separated, hr, separatedTail_stop htn]
  | @cons x y xs v ts us hx hv hus =>
    have hr := hx v (us ++ t :: rest) (by simp [hv])
    have hlt : us.length + 1 < (v :: (us ++ t :: rest)).length + 1 := by
      simp only [List.length_append, List.length_cons]
      omega
    have htail := separatedTail_items hs ht rest hv hus (by simp) hlt
    simp only [separated, bind_apply, List.append_assoc, List.cons_append, hr, remaining_apply,
      htail, pure_apply]

end Lists

/-! ## Entries on one line -/

/-- The tokens of entries with the lexemes of a separator between them. -/
theorem items_intercalate {g : α → List Lexeme} {k : Kind} {between : List Lexeme}
    (hk : ∀ s : Scanner, ∃ t, s.tokens between = [t] ∧ t.kind = k) (s : Scanner) (xs : List α) :
    Items k (fun x ts => ∃ s : Scanner, ts = s.tokens (g x)) xs
      (s.tokens (List.intercalate between (xs.map g))) := by
  induction xs generalizing s with
  | nil => exact .nil
  | cons x xs ih =>
    cases xs with
    | nil => exact .last ⟨s, by simp⟩
    | cons y xs =>
      obtain ⟨t, ht, hkind⟩ := hk (s.after (g x))
      have ih := ih ((s.after (g x)).after between)
      rw [List.map_cons, List.map_cons, List.intercalate_cons_cons, List.append_assoc,
        Scanner.tokens_append, Scanner.tokens_append, ht]
      exact .cons ⟨s, rfl⟩ hkind ih

/-! ## Entries on lines of their own -/

/-- Some entries on lines of their own, each behind its indentation. -/
def linesLexemes (g : α → List Lexeme) (xs : List (List Lexeme × α)) : List Lexeme :=
  xs.flatMap fun (pad, x) => pad ++ (g x ++ [.layout ['\n']])

@[simp] theorem linesLexemes_nil (g : α → List Lexeme) : linesLexemes g [] = [] := rfl

theorem linesLexemes_cons (g : α → List Lexeme) (pad : List Lexeme) (x : α)
    (xs : List (List Lexeme × α)) :
    linesLexemes g ((pad, x) :: xs) = pad ++ (g x ++ .layout ['\n'] :: linesLexemes g xs) := by
  simp [linesLexemes]

/-- The tokens of entries on lines of their own. Behind the last one stands a semicolon. -/
theorem items_lines {g : α → List Lexeme} {s : Scanner} (hs : s.pending = false)
    {xs : List (List Lexeme × α)} (hpad : ∀ x ∈ xs, ∀ l ∈ x.1, l.isLayout = true)
    (hends : ∀ x ∈ xs, EndsLine (g x.2)) :
    (s.after (linesLexemes g xs)).pending = false ∧
    ∃ ts tail, s.tokens (linesLexemes g xs) = ts ++ tail ∧ (∀ u ∈ tail, u.kind = .semi) ∧
      Items .semi (fun x ts => ∃ s : Scanner, ts = s.tokens (g x)) (xs.map Prod.snd) ts := by
  induction xs generalizing s with
  | nil => exact ⟨hs, [], [], rfl, by simp, .nil⟩
  | cons x xs ih =>
    obtain ⟨pad, x⟩ := x
    obtain ⟨hp, hpad⟩ := List.forall_mem_cons.1 hpad
    obtain ⟨he, hends⟩ := List.forall_mem_cons.1 hends
    have hin := Scanner.tokens_indent hs hp
    generalize hs' : s.after pad = s' at hin
    obtain ⟨hpending, ts, tail, hts, htail, hitems⟩ :=
      ih (s'.after (g x)).pending_lineEnd hpad hends
    rw [linesLexemes_cons]
    refine ⟨?_, ?_⟩
    · rw [Scanner.after_append, Scanner.after_append, Scanner.after_cons, hs']
      exact hpending
    · rw [(hin _).1, s'.tokens_lineEnd he, hts]
      cases xs with
      | nil =>
        -- The line end behind the last entry separates it from nothing.
        cases hitems with
        | nil =>
          refine ⟨s'.tokens (g x), (s'.after (g x)).lineEnd :: tail, rfl, ?_, .last ⟨s', rfl⟩⟩
          exact List.forall_mem_cons.2 ⟨rfl, htail⟩
      | cons y xs =>
        exact ⟨s'.tokens (g x) ++ (s'.after (g x)).lineEnd :: ts, tail, by simp, htail,
          .cons ⟨s', rfl⟩ rfl hitems⟩

/-! ## Counting tokens -/

/-- The number of tokens among some lexemes. -/
def tokenCount (ls : List Lexeme) : Nat :=
  ls.countP fun
    | .token _ _ => true
    | _ => false

@[simp] theorem tokenCount_nil : tokenCount [] = 0 := rfl

@[simp] theorem tokenCount_token (kind : Kind) (text : List Char) (ls : List Lexeme) :
    tokenCount (.token kind text :: ls) = tokenCount ls + 1 := by
  simp [tokenCount]

@[simp] theorem tokenCount_layout (text : List Char) (ls : List Lexeme) :
    tokenCount (.layout text :: ls) = tokenCount ls := by
  simp [tokenCount]

@[simp] theorem tokenCount_append (ls ms : List Lexeme) :
    tokenCount (ls ++ ms) = tokenCount ls + tokenCount ms := by
  simp [tokenCount]

theorem tokenCount_le_length (s : Scanner) (ls : List Lexeme) :
    tokenCount ls ≤ (s.tokens ls).length := by
  induction ls generalizing s with
  | nil => simp
  | cons l ls ih =>
    have ih := ih (s.step l)
    cases l with
    | token kind text => simpa using ih
    | layout text =>
      rw [tokenCount_layout, Scanner.tokens, List.length_append]
      omega
    | bad text =>
      rw [Scanner.tokens, List.length_append]
      simp only [tokenCount, List.countP_cons] at ih ⊢
      simp only [Bool.false_eq_true, if_false, Nat.add_zero]
      omega

theorem tokenCount_le_intercalate {between ls : List Lexeme} {lss : List (List Lexeme)}
    (h : ls ∈ lss) : tokenCount ls ≤ tokenCount (List.intercalate between lss) := by
  induction lss with
  | nil => exact absurd h List.not_mem_nil
  | cons ms lss ih =>
    cases lss with
    | nil =>
      rw [List.mem_singleton.1 h]
      simp
    | cons ns lss =>
      rw [List.intercalate_cons_cons, tokenCount_append, tokenCount_append]
      rcases List.mem_cons.1 h with rfl | h
      · omega
      · have := ih h
        omega

end Parser

end Understudy.Source

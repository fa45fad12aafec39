import Mathlib
import Understudy.Stub.Override

/-!
# Keys of overrides

A key is read by three cuts, and only then are its parts checked. So what stands between brackets
is not looked at, but a dot in it may be taken for the one that ends the receiver. `Member` says
which texts are left: a key is read from a text if and only if the text is one of its spellings
(`parse?_eq_some_iff`).

> **A key has one canonical text**: it is read back as the key, and no other key has it. All
> spellings of a method are one key, and not that of a function (`parse?_spellings`).
-/

set_option autoImplicit false

namespace Understudy.Text

/-! ## The first occurrence of a separator -/

variable {sep cs before after : List Char}

theorem cut?_cons (c : Char) (cs : List Char) : cut? sep (c :: cs) =
    match sep.isPrefixOf? (c :: cs) with
    | some after => some ([], after)
    | none => (cut? sep cs).map fun (before, after) => (c :: before, after) := rfl

theorem not_prefix_of_none (h : sep.isPrefixOf? cs = none) : ¬ sep <+: cs := by
  rintro ⟨rest, happ⟩
  rw [List.isPrefixOf?_eq_some_iff_append_eq.2 happ] at h
  cases h

theorem cut?_eq_none_iff (hs : sep ≠ []) : cut? sep cs = none ↔ ¬ sep <:+: cs := by
  induction cs with
  | nil => simp [cut?, hs]
  | cons c cs ih =>
    rw [cut?_cons, List.infix_cons_iff]
    cases hp : sep.isPrefixOf? (c :: cs) with
    | some rest =>
      have hfront : sep <+: c :: cs := ⟨rest, List.isPrefixOf?_eq_some_iff_append_eq.1 hp⟩
      simp [hfront]
    | none =>
      have hfront := not_prefix_of_none hp
      simp only [Option.map_eq_none_iff, ih, hfront, false_or]

/-- **A text is cut at the first occurrence of the separator**: there is none that ends before
this one does. -/
theorem cut?_eq_some_iff (hs : sep ≠ []) : cut? sep cs = some (before, after) ↔
    cs = before ++ sep ++ after ∧ ¬ sep <:+: (before ++ sep).dropLast := by
  induction cs generalizing before with
  | nil => simp [cut?, hs]
  | cons c cs ih =>
    rw [cut?_cons]
    cases hp : sep.isPrefixOf? (c :: cs) with
    | some rest =>
      have hcs := List.isPrefixOf?_eq_some_iff_append_eq.1 hp
      simp only [Option.some.injEq, Prod.mk.injEq]
      constructor
      · rintro ⟨rfl, rfl⟩
        refine ⟨hcs.symm, fun h => ?_⟩
        have hlength := h.length_le
        have hpos := List.length_pos_iff.2 hs
        rw [List.nil_append, List.length_dropLast] at hlength
        omega
      · rintro ⟨happ, hfirst⟩
        cases before with
        | nil =>
          rw [List.nil_append, ← hcs] at happ
          exact ⟨rfl, List.append_cancel_left happ⟩
        | cons d before =>
          -- The separator is at the front, so what is before another one has it inside.
          refine absurd ?_ hfirst
          have hfront : sep <+: c :: cs := ⟨rest, hcs⟩
          rw [happ] at hfront
          have hshort : sep <+: (d :: before ++ sep).dropLast := by
            refine List.prefix_of_prefix_length_le hfront
              ((List.dropLast_prefix _).trans (List.prefix_append _ _)) ?_
            simp
          exact hshort.isInfix
    | none =>
      have hfront := not_prefix_of_none hp
      cases before with
      | nil =>
        simp only [Option.map_eq_some_iff, Prod.mk.injEq, reduceCtorEq, false_and, and_false,
          exists_const, List.nil_append, false_iff, not_and]
        intro h
        exact absurd ⟨after, h.symm⟩ hfront
      | cons d before =>
        have hne : before ++ sep ≠ [] := by simp [hs]
        rw [List.cons_append, List.dropLast_cons_of_ne_nil hne, List.infix_cons_iff]
        simp only [Option.map_eq_some_iff, Prod.exists, Prod.mk.injEq, List.cons.injEq,
          List.cons_append]
        constructor
        · rintro ⟨b, a, hcut, ⟨rfl, rfl⟩, rfl⟩
          obtain ⟨rfl, hfirst⟩ := ih.1 hcut
          refine ⟨⟨rfl, rfl⟩, ?_⟩
          rintro (h | h)
          · refine hfront (h.trans ?_)
            rw [List.append_assoc, ← List.append_assoc, ← List.cons_append]
            exact (List.prefix_cons_inj c).2 (List.dropLast_prefix _) |>.trans
              (List.prefix_append _ _)
          · exact hfirst h
        · rintro ⟨⟨rfl, rfl⟩, hfirst⟩
          exact ⟨before, after, ih.2 ⟨rfl, fun h => hfirst (.inr h)⟩, ⟨rfl, rfl⟩, rfl⟩

/-- A text is cut at the first dot, or whatever character separates its parts. -/
theorem cut?_char_iff {c : Char} :
    cut? [c] cs = some (before, after) ↔ cs = before ++ c :: after ∧ c ∉ before := by
  rw [cut?_eq_some_iff (List.cons_ne_nil _ _), List.dropLast_concat, List.singleton_infix_iff,
    List.append_assoc, List.singleton_append]

/-- Two characters in a row begin at most once in what ends with them. -/
theorem cut?_pair_iff {c d : Char} (hne : c ≠ d) : cut? [c, d] cs = some (before, after) ↔
    cs = before ++ c :: d :: after ∧ ¬ [c, d] <:+: before := by
  have hdrop : (before ++ [c, d]).dropLast = before ++ [c] := by
    rw [List.dropLast_append_of_ne_nil (List.cons_ne_nil _ _)]
    rfl
  have hinside : [c, d] <:+: before ++ [c] ↔ [c, d] <:+: before := by
    rw [List.infix_concat_iff]
    refine or_iff_right ?_
    intro h
    have hlast := h.getLast (List.cons_ne_nil _ _)
    simp only [List.getLast_cons_cons, List.getLast_singleton, List.getLast_append_singleton] at hlast
    exact hne hlast.symm
  rw [cut?_eq_some_iff (List.cons_ne_nil _ _), hdrop, hinside, List.append_assoc]
  rfl

/-- An occurrence that begins with `c` lies behind what has no `c`. -/
theorem infix_of_append_left {c d : Char} (left : List Char) {right : List Char} (hc : c ∉ left)
    (h : [c, d] <:+: left ++ right) : [c, d] <:+: right := by
  induction left with
  | nil => exact h
  | cons x left ih =>
    obtain ⟨hx, hleft⟩ := not_or.1 (mt List.mem_cons.2 hc)
    rcases List.infix_cons_iff.1 h with h | h
    · exact absurd (List.cons_prefix_cons.1 h).1 hx
    · exact ih hleft h

end Understudy.Text

namespace Understudy.Stub.OverrideKey

open Text Source

variable {key : OverrideKey} {spec : String}

/-! ## Spellings -/

/-- Every part of a key is an identifier. -/
structure IsValid (key : OverrideKey) : Prop where
  package : isIdentifier key.package = true
  receiver : ∀ type ∈ key.receiver, isIdentifier type = true
  function : isIdentifier key.function = true

/-- What may stand behind the name of a type: nothing, or brackets and anything else. -/
def IsTypeArgs (args : List Char) : Prop := ∀ c ∈ args.head?, c = '['

/-- How a function can be written behind its package and a dot. -/
inductive Member (key : OverrideKey) : List Char → Prop where
  | plain : key.receiver = none → Member key key.function.toList
  | dotted {type : String} {args : List Char} : key.receiver = some type → IsTypeArgs args →
      '.' ∉ args → Member key (type.toList ++ args ++ '.' :: key.function.toList)
  | enclosed {type : String} {star args : List Char} : key.receiver = some type →
      star = [] ∨ star = ['*'] → IsTypeArgs args → ¬ [')', '.'] <:+: args →
      Member key ('(' :: (star ++ type.toList ++ args ++ ')' :: '.' :: key.function.toList))

theorem isTypeArgs_nil : IsTypeArgs [] := by simp [IsTypeArgs]

theorem isTypeArgs_bracket (args : List Char) : IsTypeArgs ('[' :: args) := by simp [IsTypeArgs]

/-! ## Parts that no cut goes through -/

/-- The characters at which a spelling is cut. -/
def marks : List Char := ['.', '(', ')', '[', '*']

/-- A text that is cut nowhere, and of which something is left. -/
structure IsWhole (s : String) : Prop where
  ne_nil : s.toList ≠ []
  no_marks : ∀ c ∈ marks, c ∉ s.toList

/-- A key of which every part is found again in its spellings, identifier or not. -/
structure HasWholeParts (key : OverrideKey) : Prop where
  package : IsWhole key.package
  receiver : ∀ type ∈ key.receiver, IsWhole type
  function : IsWhole key.function

theorem isIdentifierChar_of_isAlphabetic {c : Char} (h : isAlphabetic c = true) :
    isIdentifierChar c = true := by
  simp [isIdentifierChar, isAlphanumeric, h]

theorem isIdentifierChar_of_mem {s : String} (h : isIdentifier s = true) {c : Char}
    (hc : c ∈ s.toList) : isIdentifierChar c = true := by
  unfold isIdentifier at h
  split at h
  · cases h
  · rename_i d ds hs
    simp only [Bool.and_eq_true, Bool.or_eq_true, beq_iff_eq, List.all_eq_true] at h
    rw [hs] at hc
    rcases List.mem_cons.1 hc with rfl | hc
    · rcases h.1.1 with rfl | ha
      · decide
      · exact isIdentifierChar_of_isAlphabetic ha
    · exact h.1.2 c hc

theorem isIdentifierChar_marks : ∀ c ∈ marks, isIdentifierChar c = false := by
  simp only [marks, List.forall_mem_cons]
  exact ⟨by decide +kernel, by decide +kernel, by decide +kernel, by decide +kernel,
    by decide +kernel, List.forall_mem_nil _⟩

theorem isWhole_of_isIdentifier {s : String} (h : isIdentifier s = true) : IsWhole s := by
  refine ⟨fun hs => ?_, fun c hc hmem => ?_⟩
  · simp [isIdentifier, hs] at h
  · have hchar := isIdentifierChar_of_mem h hmem
    rw [isIdentifierChar_marks c hc] at hchar
    cases hchar

theorem IsValid.hasWholeParts (h : key.IsValid) : key.HasWholeParts where
  package := isWhole_of_isIdentifier h.package
  receiver := fun type ht => isWhole_of_isIdentifier (h.receiver type ht)
  function := isWhole_of_isIdentifier h.function

/-! ## Reading a spelling -/

theorem baseName_append {type args : List Char} (ht : '[' ∉ type) (ha : IsTypeArgs args) :
    baseName (type ++ args) = type := by
  unfold baseName
  rw [List.takeWhile_append_of_pos]
  · cases args with
    | nil => simp
    | cons c args => simp [ha c rfl]
  · intro c hc
    simp only [bne_iff_ne]
    rintro rfl
    exact ht hc

/-- What is cut off behind the name begins with the bracket. -/
theorem exists_typeArgs (cs : List Char) : ∃ args, cs = baseName cs ++ args ∧ IsTypeArgs args := by
  refine ⟨cs.dropWhile (· != '['), List.takeWhile_append_dropWhile.symm, fun c hc => ?_⟩
  have h := List.head?_dropWhile_not (· != '[') cs
  rw [hc] at h
  simpa using h

theorem splitMember?_of_not_lparen {cs : List Char} (h : cs.head? ≠ some '(') :
    splitMember? cs =
      match cut? ['.'] cs with
      | some (receiver, function) => some (some receiver, function)
      | none => some (none, cs) := by
  unfold splitMember?
  split
  · simp at h
  · rfl

/-- A spelling is split into the function and a receiver with the name of the type in front. -/
theorem Member.split {cs : List Char} (hw : key.HasWholeParts) (h : key.Member cs) :
    ∃ receiver, splitMember? cs = some (receiver, key.function.toList) ∧
      receiver.map baseName = key.receiver.map String.toList := by
  cases h with
  | plain hr =>
    refine ⟨none, ?_, by rw [hr]; rfl⟩
    rw [splitMember?_of_not_lparen, (cut?_eq_none_iff (List.cons_ne_nil _ _)).2]
    · rw [List.singleton_infix_iff]
      exact hw.function.no_marks _ (by decide)
    · intro h
      exact hw.function.no_marks _ (by decide) (List.mem_of_mem_head? h)
  | @dotted type args hr ha hdot =>
    have htype := hw.receiver type hr
    refine ⟨some (type.toList ++ args), ?_, ?_⟩
    · rw [splitMember?_of_not_lparen, cut?_char_iff.2 ⟨rfl, ?_⟩]
      · intro hmem
        rcases List.mem_append.1 hmem with hmem | hmem
        · exact htype.no_marks _ (by decide) hmem
        · exact hdot hmem
      · rw [List.append_assoc, List.head?_append_of_ne_nil _ htype.ne_nil]
        intro h
        exact htype.no_marks _ (by decide) (List.mem_of_mem_head? h)
    · rw [hr, Option.map_some, baseName_append (htype.no_marks _ (by decide)) ha]
      rfl
  | @enclosed type star args hr hstar ha hclose =>
    have htype := hw.receiver type hr
    refine ⟨some (type.toList ++ args), ?_, ?_⟩
    · have hstripped :
          (['*'].isPrefixOf? (star ++ type.toList ++ args)).getD (star ++ type.toList ++ args) =
            type.toList ++ args := by
        rcases hstar with rfl | rfl
        · cases hchars : type.toList with
          | nil => exact absurd hchars htype.ne_nil
          | cons c cs =>
            have hc : '*' ≠ c := by
              rintro rfl
              exact htype.no_marks '*' (by decide) (hchars ▸ List.mem_cons_self)
            simp [List.isPrefixOf?, hc]
        · simp [List.isPrefixOf?]
      have hfirst : ¬ [')', '.'] <:+: star ++ type.toList ++ args := by
        -- The closing mark is not in the name, so it would have to be in the arguments.
        intro h
        refine hclose (infix_of_append_left (star ++ type.toList) ?_ h)
        intro hmem
        rcases List.mem_append.1 hmem with hmem | hmem
        · rcases hstar with rfl | rfl <;> simp at hmem
        · exact htype.no_marks _ (by decide) hmem
      have hcut : cut? [')', '.']
          (star ++ type.toList ++ args ++ ')' :: '.' :: key.function.toList) =
            some (star ++ type.toList ++ args, key.function.toList) :=
        (cut?_pair_iff (by decide)).2 ⟨rfl, hfirst⟩
      show (cut? [')', '.'] _).map _ = _
      rw [hcut, Option.map_some]
      simp only [hstripped]
    · rw [hr, Option.map_some, baseName_append (htype.no_marks _ (by decide)) ha]
      rfl

/-- Whatever can be split is a spelling. -/
theorem member_of_split {cs : List Char} {receiver : Option (List Char)}
    (h : splitMember? cs = some (receiver, key.function.toList))
    (hr : receiver.map baseName = key.receiver.map String.toList) : key.Member cs := by
  have named : ∀ {r : List Char}, receiver = some r → ∃ type args, key.receiver = some type ∧
      r = type.toList ++ args ∧ IsTypeArgs args := by
    rintro r rfl
    obtain ⟨args, happ, ha⟩ := exists_typeArgs r
    obtain ⟨type, ht, hbase⟩ := Option.map_eq_some_iff.1 hr.symm
    exact ⟨type, args, ht, hbase ▸ happ, ha⟩
  -- A receiver in brackets ends at the bracket and the dot; any other text is cut at its first dot.
  by_cases hp : cs.head? = some '('
  · obtain ⟨cs, rfl⟩ := List.head?_eq_some_iff.1 hp
    obtain ⟨⟨inside, function⟩, hcut, heq⟩ := Option.map_eq_some_iff.1 h
    obtain ⟨hreceiver, rfl⟩ := Prod.mk.inj heq
    obtain ⟨type, args, ht, happ, ha⟩ := named hreceiver.symm
    obtain ⟨rfl, hfirst⟩ := (cut?_pair_iff (by decide)).1 hcut
    obtain ⟨star, hstar, hinside⟩ : ∃ star, (star = [] ∨ star = ['*']) ∧
        inside = star ++ type.toList ++ args := by
      cases hs : ['*'].isPrefixOf? inside with
      | none =>
        rw [hs] at happ
        exact ⟨[], .inl rfl, happ⟩
      | some rest =>
        rw [hs] at happ
        refine ⟨['*'], .inr rfl, ?_⟩
        rw [List.append_assoc, ← happ]
        exact (List.isPrefixOf?_eq_some_iff_append_eq.1 hs).symm
    subst hinside
    exact .enclosed ht hstar ha fun hclose => hfirst (hclose.trans (List.suffix_append _ _).isInfix)
  · rw [splitMember?_of_not_lparen hp] at h
    cases hcut : cut? ['.'] cs with
    | none =>
      rw [hcut] at h
      obtain ⟨hreceiver, hfunction⟩ := Prod.mk.inj (Option.some.inj h)
      rw [hfunction]
      refine .plain ?_
      rw [← hreceiver] at hr
      exact Option.map_eq_none_iff.1 hr.symm
    | some parts =>
      rw [hcut] at h
      obtain ⟨hreceiver, hfunction⟩ := Prod.mk.inj (Option.some.inj h)
      obtain ⟨type, args, ht, happ, ha⟩ := named hreceiver.symm
      obtain ⟨hcs, hdot⟩ := cut?_char_iff.1 hcut
      rw [hcs, happ, hfunction]
      exact .dotted ht ha fun hmem => hdot (happ ▸ List.mem_append_right _ hmem)

/-! ## Reading a key -/

theorem parse?_eq (spec : String) : parse? spec =
    (cut? ['.'] spec.toList).bind fun (package, member) =>
      (splitMember? member).bind fun (receiver, function) =>
        let key : OverrideKey := {
          package := String.ofList package
          receiver := receiver.map fun r => String.ofList (baseName r)
          function := String.ofList function }
        if isIdentifier key.package && isIdentifier key.function && key.receiver.all isIdentifier
        then some key else none := rfl

theorem isValid_iff : key.IsValid ↔
    (isIdentifier key.package && isIdentifier key.function && key.receiver.all isIdentifier) =
      true := by
  rw [Bool.and_eq_true, Bool.and_eq_true, Option.all_eq_true]
  exact ⟨fun h => ⟨⟨h.package, h.function⟩, h.receiver⟩, fun h => ⟨h.1.1, h.2, h.1.2⟩⟩

instance : Decidable key.IsValid := decidable_of_iff _ isValid_iff.symm

/-- A spelling of whole parts is read as the key, if its parts are identifiers. -/
theorem parse?_member (hw : key.HasWholeParts) {member : List Char} (hm : key.Member member)
    (h : spec.toList = key.package.toList ++ '.' :: member) :
    parse? spec = if key.IsValid then some key else none := by
  have hcut := cut?_char_iff.2 ⟨h, hw.package.no_marks _ (by decide)⟩
  obtain ⟨receiver, hsplit, hr⟩ := hm.split hw
  have hreceiver : (receiver.map fun r => String.ofList (baseName r)) = key.receiver := by
    rw [← Function.comp_def, ← Option.map_map, hr, Option.map_map]
    simp [Function.comp_def]
  rw [parse?_eq, hcut, Option.bind_some]
  show (splitMember? member).bind _ = _
  rw [hsplit, Option.bind_some]
  simp only [hreceiver, String.ofList_toList, isValid_iff]

/-- **A key is read from its spellings and from nothing else.** -/
theorem parse?_eq_some_iff : parse? spec = some key ↔
    key.IsValid ∧ ∃ member, key.Member member ∧
      spec.toList = key.package.toList ++ '.' :: member := by
  constructor
  · rw [parse?_eq]
    intro h
    obtain ⟨⟨package, member⟩, hcut, h⟩ := Option.bind_eq_some_iff.1 h
    obtain ⟨⟨receiver, function⟩, hsplit, h⟩ := Option.bind_eq_some_iff.1 h
    obtain ⟨hvalid, hkey⟩ := Option.ite_none_right_eq_some.1 h
    replace hkey := Option.some.inj hkey
    rw [hkey] at hvalid
    have hfunction : key.function.toList = function := by rw [← hkey, String.toList_ofList]
    have hpackage : key.package.toList = package := by rw [← hkey, String.toList_ofList]
    have hreceiver : receiver.map baseName = key.receiver.map String.toList := by
      rw [← hkey]
      cases receiver <;> simp
    refine ⟨isValid_iff.2 hvalid, member, member_of_split (hfunction ▸ hsplit) hreceiver, ?_⟩
    rw [hpackage]
    exact (cut?_char_iff.1 hcut).1
  · rintro ⟨hv, member, hm, hspec⟩
    rw [parse?_member hv.hasWholeParts hm hspec, if_pos hv]

/-! ## The canonical spelling -/

/-- A key that is read from some text. -/
def IsAccepted (key : OverrideKey) : Prop := ∃ spec, parse? spec = some key

theorem parse?_text (hw : key.HasWholeParts) :
    parse? key.text = if key.IsValid then some key else none := by
  unfold text
  cases hr : key.receiver with
  | none => exact parse?_member hw (.plain hr) (by simp)
  | some type => exact parse?_member hw (.dotted hr isTypeArgs_nil (by simp)) (by simp)

theorem parse?_text_of_isValid (hv : key.IsValid) : parse? key.text = some key := by
  rw [parse?_text hv.hasWholeParts, if_pos hv]

theorem isAccepted_iff : key.IsAccepted ↔ key.IsValid :=
  ⟨fun ⟨_, h⟩ => (parse?_eq_some_iff.1 h).1, fun h => ⟨_, parse?_text_of_isValid h⟩⟩

/-- The spellings of a method without type arguments, the canonical one first. -/
def bareSpellings (package type function : String) : List String :=
  [package ++ "." ++ type ++ "." ++ function,
    package ++ ".(" ++ type ++ ")." ++ function,
    package ++ ".(*" ++ type ++ ")." ++ function]

/-- The spellings of a method with type arguments. -/
def instanceSpellings (package type function args : String) : List String :=
  [package ++ "." ++ type ++ "[" ++ args ++ "]." ++ function,
    package ++ ".(" ++ type ++ "[" ++ args ++ "])." ++ function,
    package ++ ".(*" ++ type ++ "[" ++ args ++ "])." ++ function]

theorem parse?_bareSpellings {package type function : String}
    (hw : HasWholeParts ⟨package, some type, function⟩)
    (h : spec ∈ bareSpellings package type function) :
    parse? spec = if IsValid ⟨package, some type, function⟩ then
      some ⟨package, some type, function⟩ else none := by
  have hcanonical := parse?_text hw
  simp only [bareSpellings, List.mem_cons, List.not_mem_nil, or_false] at h
  rcases h with rfl | rfl | rfl
  · exact hcanonical
  · exact parse?_member hw (.enclosed rfl (.inl rfl) isTypeArgs_nil (by simp)) (by simp)
  · exact parse?_member hw (.enclosed rfl (.inr rfl) isTypeArgs_nil (by simp)) (by simp)

theorem parse?_instanceSpellings {package type function args : String}
    (hw : HasWholeParts ⟨package, some type, function⟩) (hargs : '.' ∉ args.toList)
    (h : spec ∈ instanceSpellings package type function args) :
    parse? spec = if IsValid ⟨package, some type, function⟩ then
      some ⟨package, some type, function⟩ else none := by
  have hdot : '.' ∉ '[' :: args.toList ++ [']'] := by simp [hargs]
  -- No receiver ends between brackets without a dot.
  have hclose : ¬ [')', '.'] <:+: '[' :: args.toList ++ [']'] :=
    fun hi => hdot (hi.subset (by simp))
  have hb := isTypeArgs_bracket (args.toList ++ [']'])
  simp only [instanceSpellings, List.mem_cons, List.not_mem_nil, or_false] at h
  rcases h with rfl | rfl | rfl
  · exact parse?_member hw (.dotted rfl hb hdot) (by simp)
  · exact parse?_member hw (.enclosed rfl (.inl rfl) hb hclose) (by simp)
  · exact parse?_member hw (.enclosed rfl (.inr rfl) hb hclose) (by simp)

/-- **A key has one canonical text.** What is accepted consists of identifiers, is read back from
its text and shares it with no other key that is accepted. All spellings of a method are accepted
and are one key, and the function of that name is another one. -/
theorem parse?_spellings :
    (∀ spec key, parse? spec = some key → key.IsValid ∧ parse? key.text = some key) ∧
    (∀ a b : OverrideKey, a.IsAccepted → b.IsAccepted → a.text = b.text → a = b) ∧
    ∀ package type function args : String, isIdentifier package = true → isIdentifier type = true →
      isIdentifier function = true → '.' ∉ args.toList →
      ∀ spec ∈ bareSpellings package type function ++
          instanceSpellings package type function args,
        parse? spec = some ⟨package, some type, function⟩ ∧
        parse? (package ++ "." ++ function) = some ⟨package, none, function⟩ ∧
        parse? spec ≠ parse? (package ++ "." ++ function) := by
  refine ⟨?_, ?_, ?_⟩
  · intro spec key h
    have hv := (parse?_eq_some_iff.1 h).1
    exact ⟨hv, parse?_text_of_isValid hv⟩
  · intro a b ha hb htext
    have hread := parse?_text_of_isValid (isAccepted_iff.1 ha)
    rw [htext, parse?_text_of_isValid (isAccepted_iff.1 hb)] at hread
    exact (Option.some.inj hread).symm
  · intro package type function args hp ht hf hargs spec hspec
    have hv : IsValid ⟨package, some type, function⟩ :=
      ⟨hp, fun _ h => Option.some.inj h ▸ ht, hf⟩
    have hmethod : parse? spec = some ⟨package, some type, function⟩ := by
      -- The spellings without type arguments, and those with them.
      rcases List.mem_append.1 hspec with hspec | hspec
      · rw [parse?_bareSpellings hv.hasWholeParts hspec, if_pos hv]
      · rw [parse?_instanceSpellings hv.hasWholeParts hargs hspec, if_pos hv]
    have hplain : parse? (package ++ "." ++ function) = some ⟨package, none, function⟩ := by
      have hv : IsValid ⟨package, none, function⟩ := ⟨hp, by simp, hf⟩
      have hread := parse?_text_of_isValid hv
      exact hread
    refine ⟨hmethod, hplain, ?_⟩
    rw [hmethod, hplain]
    simp

theorem parse?_spellings_sample :
    (parse? "list.(*List[int]).Push" = some ⟨"list", some "List", "Push"⟩ ∧
      parse? "list.Push" = some ⟨"list", none, "Push"⟩ ∧
      parse? "list.(*List[int]).Push" ≠ parse? "list.Push") ∧
    (IsValid ⟨"list", some "List", "Push"⟩ ∧
      parse? "list.List.Push" = some ⟨"list", some "List", "Push"⟩) ∧
    ∀ b : OverrideKey, b.IsAccepted → text ⟨"list", none, "Push"⟩ = b.text →
      ⟨"list", none, "Push"⟩ = b := by
  have hlist : isIdentifier "list" = true := by decide +kernel
  have hType : isIdentifier "List" = true := by decide +kernel
  have hPush : isIdentifier "Push" = true := by decide +kernel
  have hmethod := parse?_spellings.2.2 "list" "List" "Push" "int" hlist hType hPush (by decide)
    "list.(*List[int]).Push" (by decide)
  have hplain : "list" ++ "." ++ "Push" = "list.Push" := by decide
  rw [hplain] at hmethod
  have htext := parse?_spellings.1 _ _ hmethod.1
  have hcanonical : text ⟨"list", some "List", "Push"⟩ = "list.List.Push" := by decide
  rw [hcanonical] at htext
  exact ⟨hmethod, htext, fun b => parse?_spellings.2.1 _ b ⟨"list.Push", hmethod.2.1⟩⟩

end Understudy.Stub.OverrideKey

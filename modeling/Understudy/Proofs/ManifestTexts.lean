import Mathlib
import Understudy.Proofs.OverrideKeys
import Understudy.Proofs.PrintedText
import Understudy.Proofs.RenderedFiles

/-!
# Manifests read back

The manifest of the stubs is written from two values that were read of a manifest. What is read is
one word in front of the comments of its line, and a word without its quotes is still one, so both
values can be written bare (`parse_bare`). What is written bare is read as the same word, but not
always as the same value: the quotes around a module path are dropped when it is read, and an empty
one is no word at all (`parse_render`).

> **A manifest is read back from its text** if and only if its module path is neither empty nor
> quoted (`parse_render_iff`).

The text is what a generation leaves on the disk, since no stub has the name of a manifest. So a
later run that starts below the stubs finds their module by the same rule (`load_writtenManifest`).
-/

set_option autoImplicit false

namespace Understudy.Text

/-! ## Words -/

section Words

variable {cs w v : List Char}

/-- A piece is a part of the text, and the first one is its front. -/
theorem infix_of_pieces {p : Char → Bool} {ws : List (List Char)} (h : pieces p cs = w :: ws) :
    w <+: cs ∧ ∀ v ∈ ws, v <:+: cs := by
  induction cs generalizing w ws with
  | nil =>
    cases h
    simp
  | cons c cs ih =>
    have htail : cs <:+: c :: cs := (List.suffix_cons c cs).isInfix
    obtain ⟨v, vs, hv⟩ := List.exists_cons_of_ne_nil (pieces_ne_nil (p := p) cs)
    obtain ⟨hfirst, hrest⟩ := ih hv
    by_cases hc : p c = true
    · rw [pieces_of_sep hc, hv] at h
      obtain ⟨rfl, rfl⟩ := List.cons.inj h
      refine ⟨List.nil_prefix, List.forall_mem_cons.2 ⟨hfirst.isInfix.trans htail, ?_⟩⟩
      exact fun u hu => (hrest u hu).trans htail
    · rw [pieces_of_not_sep hc hv] at h
      obtain ⟨rfl, rfl⟩ := List.cons.inj h
      exact ⟨List.cons_prefix_cons.2 ⟨rfl, hfirst⟩, fun u hu => (hrest u hu).trans htail⟩

/-- A word is a part of the text without blanks, and there is something of it. -/
theorem mem_words (h : w ∈ words cs) : w <:+: cs ∧ w ≠ [] ∧ ∀ c ∈ w, isBlank c = false := by
  obtain ⟨hmem, hne⟩ := List.mem_filter.1 h
  refine ⟨?_, by simpa using hne, fun c hc => by simpa using not_sep_of_mem_pieces hmem c hc⟩
  obtain ⟨u, us, hu⟩ := List.exists_cons_of_ne_nil (pieces_ne_nil (p := isBlank) cs)
  obtain ⟨hfirst, hrest⟩ := infix_of_pieces hu
  rw [hu] at hmem
  rcases List.mem_cons.1 hmem with rfl | hmem
  · exact hfirst.isInfix
  · exact hrest w hmem

/-- Two texts without blanks are the two words of a line, if there is something of them. -/
theorem words_pair (hw : ∀ c ∈ w, isBlank c = false) (hv : ∀ c ∈ v, isBlank c = false) :
    words (w ++ ' ' :: v) = [w, v].filter fun u => !u.isEmpty := by
  have hpiece : ∀ {u : List Char}, (∀ c ∈ u, isBlank c = false) → pieces isBlank u = [u] :=
    fun hu => pieces_eq_singleton fun c hc => by simp [hu c hc]
  rw [words, pieces_append (show isBlank ' ' = true by decide), hpiece hw, hpiece hv]
  rfl

end Words

end Understudy.Text

namespace Understudy.Modules.Manifest

open Files Text

/-! ## Values -/

/-- Whether a text is one word wherever it stands, or none: it has no blank in it and begins no
comment. -/
structure IsBare (value : List Char) : Prop where
  blank : ∀ c ∈ value, isBlank c = false
  comment : ¬ ['/', '/'] <:+: value

/-- Whether a text stands between two quotation marks of one kind. -/
def IsQuoted (value : List Char) : Prop :=
  ∃ mark ∈ ['"', '\x60'], ∃ inner, value = mark :: (inner ++ [mark])

section Values

variable {value : List Char}

theorem IsBare.part {inner : List Char} (h : IsBare value) (hi : inner <:+: value) :
    IsBare inner :=
  ⟨fun c hc => h.blank c (hi.subset hc), fun hcomment => h.comment (hcomment.trans hi)⟩

theorem between?_eq_some_iff {mark : Char} {inner : List Char} :
    between? mark value = some inner ↔ value = mark :: (inner ++ [mark]) := by
  cases value with
  | nil => simp [between?]
  | cons c cs =>
    rw [between?]
    split
    · next hmarks =>
      rw [Bool.and_eq_true, beq_iff_eq, beq_iff_eq, List.getLast?_eq_some_iff] at hmarks
      obtain ⟨rfl, ys, rfl⟩ := hmarks
      simp
    · next hmarks =>
      simp only [reduceCtorEq, List.cons.injEq, false_iff]
      rintro ⟨rfl, rfl⟩
      exact hmarks (by simp)

/-- **Quotes are left out, and nothing else is.** -/
theorem unquote_cases (value : List Char) : (¬IsQuoted value ∧ unquote value = value) ∨
    ∃ mark ∈ ['"', '\x60'], value = mark :: (unquote value ++ [mark]) := by
  rw [unquote]
  cases hdouble : between? '"' value with
  | some inner => exact Or.inr ⟨'"', by simp, between?_eq_some_iff.1 hdouble⟩
  | none =>
    cases hback : between? '\x60' value with
    | some inner => exact Or.inr ⟨'\x60', by simp, between?_eq_some_iff.1 hback⟩
    | none =>
      refine Or.inl ⟨?_, rfl⟩
      rintro ⟨mark, hmark, inner, hvalue⟩
      have hfound := between?_eq_some_iff.2 hvalue
      simp only [List.mem_cons, List.not_mem_nil, or_false] at hmark
      rcases hmark with rfl | rfl
      · rw [hdouble] at hfound
        cases hfound
      · rw [hback] at hfound
        cases hfound

theorem unquote_eq_self_iff : unquote value = value ↔ ¬IsQuoted value := by
  rcases unquote_cases value with ⟨hnot, heq⟩ | ⟨mark, hmark, hvalue⟩
  · exact iff_of_true heq hnot
  · refine iff_of_false (fun heq => ?_) fun hnot => hnot ⟨mark, hmark, _, hvalue⟩
    -- A text with marks around it is longer.
    have hlength := congrArg List.length hvalue
    rw [heq, List.length_cons, List.length_append] at hlength
    omega

theorem IsBare.unquote (h : IsBare value) : IsBare (unquote value) := by
  rcases unquote_cases value with ⟨-, heq⟩ | ⟨mark, -, hvalue⟩
  · rwa [heq]
  · exact h.part ⟨[mark], [mark], by rw [List.append_assoc]; exact hvalue.symm⟩

end Values

/-! ## Lines -/

section Lines

variable {line value : List Char} {key : String}

/-- A line says what its front says, where no comment begins. -/
theorem exists_front (line : List Char) : ∃ front, ¬ ['/', '/'] <:+: front ∧
    directive line = directive front := by
  cases hcut : cut? ['/', '/'] line with
  | none => exact ⟨line, (cut?_eq_none_iff (List.cons_ne_nil _ _)).1 hcut, rfl⟩
  | some p =>
    obtain ⟨front, after⟩ := p
    obtain ⟨-, hfirst⟩ := (cut?_eq_some_iff (List.cons_ne_nil _ _)).1 hcut
    have hfront : ¬ ['/', '/'] <:+: front := by
      refine fun hcomment => hfirst (hcomment.trans ?_)
      rw [List.dropLast_append_of_ne_nil (List.cons_ne_nil _ _)]
      exact (List.prefix_append _ _).isInfix
    refine ⟨front, hfront, ?_⟩
    rw [directive, directive, hcut, (cut?_eq_none_iff (List.cons_ne_nil _ _)).2 hfront]

/-- **A value that is read can be written bare**, and there is something of it. -/
theorem directive_bare (h : directive line = some (key, value)) : IsBare value ∧ value ≠ [] := by
  obtain ⟨front, hfront, heq⟩ := exists_front line
  have hcut : cut? ['/', '/'] front = none := (cut?_eq_none_iff (List.cons_ne_nil _ _)).2 hfront
  rw [heq] at h
  simp only [directive, hcut] at h
  split at h
  · next k v vs hw =>
    obtain ⟨-, rfl⟩ := Prod.mk.inj (Option.some.inj h)
    obtain ⟨hpart, hne, hblank⟩ := mem_words (hw ▸ by simp : v ∈ words front)
    exact ⟨⟨hblank, fun hcomment => hfront (hcomment.trans hpart)⟩, hne⟩
  · cases h

/-- The keys of directives are words, and no slash is in them. -/
theorem key_chars (h : key ∈ ["module", "go"]) :
    key.toList ≠ [] ∧ ∀ c ∈ key.toList, isBlank c = false ∧ c ≠ '/' := by
  have hall : ∀ key ∈ ["module", "go"], key.toList ≠ [] ∧
      key.toList.all (fun c => !isBlank c && c != '/') = true := by decide
  obtain ⟨hne, hchars⟩ := hall key h
  exact ⟨hne, fun c hc => by simpa using List.all_eq_true.1 hchars c hc⟩

/-- The line of a directive: its key and a value that is written bare. -/
def valueLine (key : String) (value : List Char) : List Char := key.toList ++ ' ' :: value

/-- A line with a bare value is a directive, unless there is nothing of the value. -/
theorem directive_valueLine (hkey : key ∈ ["module", "go"]) (hv : IsBare value) :
    directive (valueLine key value) = if value = [] then none else some (key, value) := by
  obtain ⟨hne, hchars⟩ := key_chars hkey
  have hcomment : ¬ ['/', '/'] <:+: key.toList ++ ' ' :: value := by
    intro hinfix
    have hbehind := infix_of_append_left key.toList (fun hc => (hchars _ hc).2 rfl) hinfix
    rcases List.infix_cons_iff.1 hbehind with hfront | hinner
    · exact absurd (List.cons_prefix_cons.1 hfront).1 (by decide)
    · exact hv.comment hinner
  have hcut := (cut?_eq_none_iff (List.cons_ne_nil '/' ['/'])).2 hcomment
  have hsome : key.toList.isEmpty = false := by simpa using hne
  simp only [valueLine, directive, hcut, words_pair (fun c hc => (hchars c hc).1) hv.blank]
  cases value with
  | nil => simp [hsome]
  | cons c cs => simp [hsome]

/-- No blank but the one between them is in the key and the value, so none ends the line. -/
theorem oneLine_valueLine (hkey : key ∈ ["module", "go"]) (hv : IsBare value) :
    Source.OneLine (valueLine key value) := by
  have hchars : ∀ c ∈ valueLine key value, c ≠ '\n' ∧ c ≠ '\r' := by
    have hends : ∀ {c}, isBlank c = false → c ≠ '\n' ∧ c ≠ '\r' := by
      refine fun {c} hc => ⟨?_, ?_⟩
      · rintro rfl
        exact absurd hc (by decide)
      · rintro rfl
        exact absurd hc (by decide)
    refine List.forall_mem_append.2 ⟨fun c hc => hends ((key_chars hkey).2 c hc).1,
      List.forall_mem_cons.2 ⟨by decide, fun c hc => hends (hv.blank c hc)⟩⟩
  exact ⟨fun hn => (hchars _ hn).1 rfl, fun hr => (hchars _ (List.mem_of_getLast? hr)).2 rfl⟩

theorem exists_of_lastValue? {directives : List (String × List Char)}
    (h : lastValue? key directives = some value) : ∃ k, (k, value) ∈ directives := by
  obtain ⟨⟨k, v⟩, hlast, rfl⟩ := Option.map_eq_some_iff.1 h
  exact ⟨k, (List.mem_filter.1 (List.mem_of_getLast? hlast)).1⟩

end Lines

/-! ## Whole manifests -/

/-- Whether the values of a manifest can be written without quotes. There is no empty version. -/
structure HasBareValues (m : Manifest) : Prop where
  module : IsBare m.module.toList
  version : ∀ v ∈ m.version, IsBare v.toList ∧ v ≠ ""

variable {text : String} {m : Manifest}

/-- **What is read of a manifest can be written bare.** -/
theorem parse_bare (h : parse text = .ok m) : m.HasBareValues := by
  have hvalue : ∀ key value,
      lastValue? key ((lines text.toList).filterMap directive) = some value →
        IsBare value ∧ value ≠ [] := by
    intro key value hlast
    obtain ⟨k, hmem⟩ := exists_of_lastValue? hlast
    obtain ⟨line, -, hline⟩ := List.mem_filterMap.1 hmem
    exact directive_bare hline
  simp only [parse] at h
  split at h
  · cases h
  · next value hmodule =>
    obtain rfl := Except.ok.inj h
    refine ⟨?_, fun v hv => ?_⟩
    · rw [String.toList_ofList]
      exact (hvalue "module" value hmodule).1.unquote
    · obtain ⟨version, hversion, rfl⟩ := Option.map_eq_some_iff.1 hv
      obtain ⟨hbare, hne⟩ := hvalue "go" version hversion
      rw [String.toList_ofList]
      exact ⟨hbare, by simpa using hne⟩

/-- The lines of the text of a manifest. -/
theorem lines_render (h : m.HasBareValues) : lines m.render.toList =
    valueLine "module" m.module.toList ::
      match m.version with
      | none => []
      | some v => [[], valueLine "go" v.toList] := by
  obtain ⟨module, version⟩ := m
  have hmodule : Source.OneLine (valueLine "module" module.toList) :=
    oneLine_valueLine (by simp) h.module
  cases version with
  | none =>
    have hlines := Source.lines_joinLines (List.forall_mem_singleton.2 hmodule) []
    simpa [render, valueLine, Source.joinLines, lines] using hlines
  | some v =>
    have hgo : Source.OneLine (valueLine "go" v.toList) :=
      oneLine_valueLine (by simp) (h.version v rfl).1
    have hlines := Source.lines_joinLines
      (List.forall_mem_cons.2 ⟨hmodule, List.forall_mem_cons.2 ⟨Source.oneLine_nil,
        List.forall_mem_singleton.2 hgo⟩⟩) []
    simpa [render, valueLine, Source.joinLines, lines] using hlines

/-- The directives in the text of a manifest. -/
theorem directives_render (h : m.HasBareValues) : (lines m.render.toList).filterMap directive =
    (if m.module = "" then [] else [("module", m.module.toList)]) ++
      (m.version.map fun v => ("go", v.toList)).toList := by
  have hmodule : (directive (valueLine "module" m.module.toList)).toList =
      if m.module = "" then [] else [("module", m.module.toList)] := by
    rw [directive_valueLine (by simp) h.module]
    simp only [String.toList_eq_nil_iff]
    split <;> rfl
  have hversion : ∀ v ∈ m.version, directive (valueLine "go" v.toList) = some ("go", v.toList) := by
    intro v hv
    obtain ⟨hbare, hne⟩ := h.version v hv
    rw [directive_valueLine (by simp) hbare, if_neg (by simpa using hne)]
  have hempty : directive [] = none := by decide
  have hcons : ∀ l ls, List.filterMap directive (l :: ls) =
      (directive l).toList ++ List.filterMap directive ls := by
    intro l ls
    rw [List.filterMap_cons]
    cases directive l <;> rfl
  rw [lines_render h, hcons, hmodule]
  cases hv : m.version with
  | none => rfl
  | some v =>
    show _ ++ List.filterMap directive [[], valueLine "go" v.toList] = _
    rw [hcons, hcons, hempty, hversion v hv]
    rfl

/-- **What is read of the text of a manifest**: its version, and its module path without quotes. -/
theorem parse_render (h : m.HasBareValues) : parse m.render =
    if m.module = "" then .error .noModule
    else .ok { m with module := String.ofList (unquote m.module.toList) } := by
  obtain ⟨module, version⟩ := m
  rw [parse, directives_render h]
  by_cases hempty : module = ""
  · simp only [if_pos hempty]
    cases version <;> rfl
  · simp only [if_neg hempty]
    cases version <;> simp [lastValue?]

/-- **A manifest that was read is read back from its text** if and only if its module path is
neither empty nor quoted. -/
theorem parse_render_iff (h : parse text = .ok m) :
    parse m.render = .ok m ↔ m.module ≠ "" ∧ ¬IsQuoted m.module.toList := by
  rw [parse_render (parse_bare h)]
  split
  · next hempty =>
    refine iff_of_false (fun herror => ?_) fun hboth => hboth.1 hempty
    cases herror
  · next hne =>
    rw [← unquote_eq_self_iff, and_iff_right hne]
    constructor
    · intro heq
      have hmodule := congrArg Manifest.module (Except.ok.inj heq)
      rw [← String.toList_inj, String.toList_ofList] at hmodule
      exact hmodule
    · intro heq
      rw [heq, String.ofList_toList]

/-- A manifest with comments, several directives of one key and a path in quotes. -/
theorem parse_render_iff_sample :
    parse "// m\r\nmodule old\n\tmodule \"a.b/c\"// x\r\ngo 1.20\ngo 1.21 // y" =
      .ok ⟨"a.b/c", some "1.21"⟩ ∧
    parse (render ⟨"a.b/c", some "1.21"⟩) = .ok ⟨"a.b/c", some "1.21"⟩ := by
  have hread : parse "// m\r\nmodule old\n\tmodule \"a.b/c\"// x\r\ngo 1.20\ngo 1.21 // y" =
      .ok ⟨"a.b/c", some "1.21"⟩ := by cbv
  refine ⟨hread, (parse_render_iff hread).2 ⟨by decide, ?_⟩⟩
  exact unquote_eq_self_iff.1 (by decide)

/-- **Not every manifest is read back**: without its outer quotes a path can still be quoted, and
an empty path is lost. -/
theorem parse_render_quoted :
    parse "module \x60\"x\"\x60\n" = .ok ⟨"\"x\"", none⟩ ∧
    parse (render ⟨"\"x\"", none⟩) = .ok ⟨"x", none⟩ ∧
    parse "module \"\"\n" = .ok ⟨"", none⟩ ∧ parse (render ⟨"", none⟩) = .error .noModule := by
  refine ⟨by cbv, by cbv, by cbv, by cbv⟩

end Understudy.Modules.Manifest

namespace Understudy.Job

open Files Modules OutputFile

/-! ## The written manifest -/

variable {job : Job} {disk d' : Disk} {installed : Option Stub.Tool} {patterns : List String}
variable {l : Loader} {w : List DiskPath}

/-- The manifest of a module is one that was read. -/
theorem exists_manifestText (hl : job.loader disk = .ok l) :
    ∃ text, Manifest.parse text = .ok l.module.manifest := by
  obtain ⟨start, -, -, hload⟩ := GoModule.discover_ok_iff.1 (Loader.create_ok_iff.1 hl).1
  rw [Manifest.load] at hload
  split at hload
  · cases hload
  · next text _ => exact ⟨text, mapError_ok_iff.1 hload⟩

/-- No stub is written over the manifest. -/
theorem readText_manifest (hd : disk.Sound) (hl : job.loader disk = .ok l)
    (hwrites : job.writesManifest = true)
    (h : (job.generate disk installed patterns).Ends w d') :
    d'.readText (job.manifestFile l.module.manifest).path = .ok l.module.manifest.render := by
  obtain ⟨t₁, packages, formatter, files, t, ht₁, -, -, hstubs, hword, ht, rfl, -⟩ :=
    generate_spec hd hl h
  have hone : job.manifests l.module.manifest = [job.manifestFile l.module.manifest] := by
    rw [manifests, if_pos hwrites]
  rw [hone] at ht₁
  have hnone : lastAt disk (disk.place (job.manifestFile l.module.manifest).path)
      (files.map Prod.snd) = none := by
    refine lastAt_eq_none fun f hf => ?_
    rw [place_manifestFile hd]
    exact (place_stub_ne hd.proper (stub_of_mem hword (paths_of_stubFiles hstubs).2 f hf) _).symm
  have hlast : lastAt disk (disk.place (job.manifestFile l.module.manifest).path)
      ([job.manifestFile l.module.manifest] ++ files.map Prod.snd) =
        some (.file l.module.manifest.render.toUTF8) := by
    rw [lastAt_append, hnone, Option.none_or]
    exact lastAt_of_distinct (List.pairwise_singleton _ _) _ (List.mem_singleton.2 rfl)
  refine readText_last hd.proper (ht₁.append ht) (by simp) ?_ hlast (Disk.refusal?_none hd _)
  exact job.isNamed_manifests l.module.manifest _ (by rw [hone]; exact List.mem_singleton.2 rfl)

/-- **What is read of the manifest that a generation has written** is that of the module, with a path
that may have lost its quotes. Without a path it is no manifest. -/
theorem load_writtenManifest (hd : disk.Sound) (hl : job.loader disk = .ok l)
    (hwrites : job.writesManifest = true)
    (h : (job.generate disk installed patterns).Ends w d') {m : Manifest} :
    Manifest.load d' (job.manifestFile l.module.manifest).path = .ok m ↔
      l.module.manifest.module ≠ "" ∧ m = { l.module.manifest with
        module := String.ofList (Manifest.unquote l.module.manifest.module.toList) } := by
  obtain ⟨text, htext⟩ := exists_manifestText hl
  have hload : Manifest.load d' (job.manifestFile l.module.manifest).path =
      (Manifest.parse l.module.manifest.render).mapError
        (.manifestParse (job.manifestFile l.module.manifest).path) := by
    rw [Manifest.load, readText_manifest hd hl hwrites h]
  rw [hload, Manifest.parse_render (Manifest.parse_bare htext)]
  split
  · next hempty =>
    refine iff_of_false (fun herror => ?_) fun hboth => hboth.1 hempty
    cases herror
  · next hne =>
    rw [and_iff_right hne, Except.mapError, Except.ok.injEq]
    exact eq_comm

end Understudy.Job

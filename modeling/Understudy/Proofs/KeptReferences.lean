import Understudy.Proofs.TypeLexemes

/-!
# Erasing fewer references

A stub is written with the references to some packages only. What happens to a type when more
packages are kept? Whether a pointer, an instance or an embedded field collapses is decided by the
text of its part, so it has to be seen that no text becomes the empty interface, or ceases to be it,
for another reason than a reference. Nothing is assumed about the type: its names and texts may be
anything.

> **Keeping more packages erases no type that was not erased before, and packages that a type does not
> mention do not matter to it** (`erases_kept`).

The text as a whole is treated in the same way (`renderType_opaque_mono`, `renderType_congr`).
-/

set_option autoImplicit false

namespace Understudy.Source

/-! ## Texts like the empty interface -/

section Opaque

variable {f : Fidelity} {s : String}

/-- A text with another character in it is not that of the empty interface. -/
theorem ne_opaqueType {c : Char} (hc : c ∈ s.toList) (hn : c ∉ opaqueType.toList) :
    s ≠ opaqueType := by
  rintro rfl
  exact hn hc

/-- A type around another one is written like the empty interface only if that one is. -/
theorem around_opaque {b : Bool} {part : String} (hs : s ≠ opaqueType) :
    (if b && part == opaqueType then part else s) = opaqueType ↔
      b = true ∧ part = opaqueType := by
  split
  · next h =>
    rw [Bool.and_eq_true, beq_iff_eq] at h
    exact iff_of_true h.2 h
  · next h =>
    rw [Bool.and_eq_true, beq_iff_eq] at h
    exact iff_of_false hs h

theorem renderType_pointer_opaque {elem : TypeExpr} :
    renderType f (.pointer elem) = opaqueType ↔
      f.isErasing = true ∧ renderType f elem = opaqueType := by
  rw [renderType]
  refine around_opaque ?_
  exact ne_opaqueType (c := '*') (by simp) (by decide)

theorem renderType_instantiated_opaque {base : TypeExpr} {args : List TypeExpr} :
    renderType f (.instantiated base args) = opaqueType ↔
      f.isErasing = true ∧ renderType f base = opaqueType := by
  rw [renderType]
  refine around_opaque ?_
  exact ne_opaqueType (c := '[') (by simp) (by decide)

/-- A union is written like the empty interface only if its one term is. -/
theorem renderType_union_opaque {terms : List TypeExpr} :
    renderType f (.union terms) = opaqueType ↔
      ∃ term, terms = [term] ∧ renderType f term = opaqueType := by
  rw [renderType, renderTypes_eq]
  rcases terms with _ | ⟨first, _ | ⟨second, terms⟩⟩
  · exact iff_of_false (by simp [opaqueType]) (by simp)
  · simp
  · exact iff_of_false (ne_opaqueType (c := '|') (by simp) (by decide)) (by simp)

/-- An interface is written like the empty one only if nothing of it is written. -/
theorem renderType_interface_iff {elems : List InterfaceElem} :
    renderType f (.interface elems) = opaqueType ↔ interfaceLines f elems = [] := by
  rw [renderType]
  split
  · next h => exact iff_of_true rfl h
  · next h => exact iff_of_false (ne_opaqueType (c := ' ') (by simp) (by decide)) h

/-- Of an interface the methods are written, whatever they refer to. -/
theorem interfaceLines_erasing_nil {kept : List String} {elems : List InterfaceElem} :
    interfaceLines (.erasing kept) elems = [] ↔ ∀ e ∈ elems, ∃ t, e = .embedded t := by
  induction elems with
  | nil => simp [interfaceLines]
  | cons e elems ih =>
    cases e with
    | method name signature => simp [interfaceLines]
    | embedded type => simp [interfaceLines, Fidelity.isErasing, ih]

end Opaque

/-! ## More packages kept -/

variable {kept more : List String}

/-- **A type that becomes the empty interface does so too when fewer packages are kept.** -/
theorem renderType_opaque_mono (hsub : kept ⊆ more) (t : TypeExpr)
    (h : renderType (.erasing more) t = opaqueType) :
    renderType (.erasing kept) t = opaqueType := by
  induction t with
  | ident | literal | unsupported => exact h
  | qualified package name =>
    rw [renderType] at h ⊢
    split at h
    · exact absurd h (ne_opaqueType (c := '.') (by simp) (by decide))
    · next hmore =>
      refine if_neg fun hkept => hmore ?_
      exact List.contains_iff_mem.2 (hsub (List.contains_iff_mem.1 hkept))
  | pointer elem ih =>
    obtain ⟨he, helem⟩ := renderType_pointer_opaque.1 h
    exact renderType_pointer_opaque.2 ⟨he, ih helem⟩
  | instantiated base args ih _ =>
    obtain ⟨he, hbase⟩ := renderType_instantiated_opaque.1 h
    exact renderType_instantiated_opaque.2 ⟨he, ih hbase⟩
  | union terms ih =>
    obtain ⟨term, rfl, hterm⟩ := renderType_union_opaque.1 h
    exact renderType_union_opaque.2 ⟨term, rfl, ih term (List.mem_singleton_self term) hterm⟩
  | interface elems _ =>
    rw [renderType_interface_iff, interfaceLines_erasing_nil] at h ⊢
    exact h
  -- Every other form has a character in its text that the empty interface lacks.
  | array | map => exact absurd h (ne_opaqueType (c := '[') (by simp [renderType]) (by decide))
  | ellipsis => exact absurd h (ne_opaqueType (c := '.') (by simp [renderType]) (by decide))
  | func => exact absurd h (ne_opaqueType (c := 'u') (by simp [renderType]) (by decide))
  | tilde => exact absurd h (ne_opaqueType (c := '~') (by simp [renderType]) (by decide))
  | struct fields _ =>
    refine absurd h (ne_opaqueType (c := 's') ?_ (by decide))
    cases fields <;> simp [renderType]
  | chan dir elem _ =>
    refine absurd h (ne_opaqueType (c := ' ') ?_ (by decide))
    cases dir with
    | both =>
      rw [renderType_both]
      split <;> simp
    | send | recv => simp [renderType]

theorem erases_iff {f : Fidelity} {t : TypeExpr} :
    erases f t = true ↔ f.isErasing = true ∧ renderType f t = opaqueType ∧
      renderType .verbatim t ≠ opaqueType := by
  simp [erases, and_assoc]

/-! ## Other packages kept

The text of a type is put together from the texts of its parts, and only a reference looks at the
packages that are kept. -/

section Congr

variable {f g : Fidelity}

theorem renderFields_congr {fs : List FieldGroup}
    (h : ∀ x ∈ fs, renderType f x.type = renderType g x.type) :
    renderFields f fs = renderFields g fs := by
  rw [renderFields_eq, renderFields_eq]
  exact List.map_congr_left fun x hx => by rw [h x hx]

theorem renderTypes_congr {ts : List TypeExpr} (h : ∀ t ∈ ts, renderType f t = renderType g t) :
    renderTypes f ts = renderTypes g ts := by
  rw [renderTypes_eq, renderTypes_eq]
  exact List.map_congr_left h

variable (he : f.isErasing = g.isErasing)
include he

theorem renderSignature_congr {s : Signature}
    (h : ∀ x ∈ s.fields, renderType f x.type = renderType g x.type) :
    renderSignature f s = renderSignature g s := by
  obtain ⟨typeParams, params, results⟩ := s
  simp only [Signature.fields, List.mem_append] at h
  have hparams : renderFields f params = renderFields g params :=
    renderFields_congr fun x hx => h x (Or.inl (Or.inr hx))
  have hresults : renderResults f results = renderResults g results := by
    rcases results with _ | _ | ⟨⟨names, type⟩, fields⟩
    · rfl
    · simp only [renderResults, he]
    · have hall : ∀ x ∈ FieldGroup.mk names type :: fields, renderType f x.type =
          renderType g x.type := fun x hx => h x (Or.inr hx)
      obtain ⟨hfirst, hrest⟩ := List.forall_mem_cons.1 hall
      rw [FieldGroup.type_mk] at hfirst
      simp only [renderResults, he, hfirst, renderFields_congr hrest]
  rw [renderSignature, renderSignature, hparams, hresults]

theorem structLines_congr {fs : List FieldGroup} (used : Bool)
    (h : ∀ x ∈ fs, renderType f x.type = renderType g x.type) :
    structLines f used fs = structLines g used fs := by
  induction fs generalizing used with
  | nil => rfl
  | cons x fs ih =>
    obtain ⟨names, type⟩ := x
    obtain ⟨hfirst, hrest⟩ := List.forall_mem_cons.1 h
    rw [FieldGroup.type_mk] at hfirst
    simp only [structLines, he, hfirst, ih _ hrest]

theorem interfaceLines_congr {es : List InterfaceElem}
    (h : ∀ e ∈ es, ∀ t ∈ e.types, renderType f t = renderType g t) :
    interfaceLines f es = interfaceLines g es := by
  induction es with
  | nil => rfl
  | cons e es ih =>
    obtain ⟨hfirst, hrest⟩ := List.forall_mem_cons.1 h
    cases e with
    | method name signature =>
      have hsignature : renderSignature f signature = renderSignature g signature :=
        renderSignature_congr he fun x hx => hfirst _ (List.mem_map_of_mem hx)
      rw [interfaceLines, interfaceLines, hsignature, ih hrest]
    | embedded type =>
      have htype : renderType f type = renderType g type := hfirst type (List.mem_singleton_self _)
      simp only [interfaceLines, he, htype, ih hrest]

end Congr

/-- The packages that a type mentions, wherever in it. -/
def TypeExpr.Mentions (t : TypeExpr) (package : String) : Prop := .qualifier package ∈ t.leaves

instance (t : TypeExpr) (package : String) : Decidable (t.Mentions package) :=
  inferInstanceAs (Decidable (_ ∈ _))

section Mentions

variable {q : String}

theorem mentions_field {fs : List FieldGroup} {x : FieldGroup} (hx : x ∈ fs)
    (hq : x.type.Mentions q) : .qualifier q ∈ fieldsLeaves fs :=
  mem_fieldsLeaves.2 ⟨x, hx, List.mem_append_right _ hq⟩

theorem mentions_signature {s : Signature} {x : FieldGroup} (hx : x ∈ s.fields)
    (hq : x.type.Mentions q) : .qualifier q ∈ s.leaves := by
  obtain ⟨typeParams, params, results⟩ := s
  simp only [Signature.fields, List.mem_append] at hx
  simp only [Signature.leaves, List.mem_append]
  rcases hx with (hx | hx) | hx
  · exact Or.inl (Or.inl (mentions_field hx hq))
  · exact Or.inl (Or.inr (mentions_field hx hq))
  · cases results with
    | none => exact absurd hx List.not_mem_nil
    | some fields => exact Or.inr (mentions_field hx hq)

theorem mentions_elem {es : List InterfaceElem} {e : InterfaceElem} {t : TypeExpr} (he : e ∈ es)
    (ht : t ∈ e.types) (hq : t.Mentions q) : .qualifier q ∈ elemsLeaves es := by
  refine mem_elemsLeaves.2 ⟨e, he, ?_⟩
  cases e with
  | method name signature =>
    obtain ⟨x, hx, rfl⟩ := List.mem_map.1 ht
    simpa [elemsLeaves] using mentions_signature hx hq
  | embedded type =>
    rw [List.mem_singleton.1 ht] at hq
    simpa [elemsLeaves, TypeExpr.Mentions] using hq

end Mentions

/-- **Packages that a type does not mention do not matter to its text.** -/
theorem renderType_congr {f g : Fidelity} (he : f.isErasing = g.isErasing) (t : TypeExpr)
    (h : ∀ q, t.Mentions q → f.keeps q = g.keeps q) : renderType f t = renderType g t := by
  -- Each part mentions no more than the whole, which is all that a case has to say.
  induction t with
  | ident | literal => rfl
  | qualified package name =>
    rw [renderType, renderType, h package (by simp [TypeExpr.Mentions, TypeExpr.leaves])]
  | unsupported text => rw [renderType, renderType, he]
  | pointer elem ih => rw [renderType, renderType, he, ih h]
  | ellipsis elem ih | tilde elem ih => rw [renderType, renderType, ih h]
  | array length elem ihl ih =>
    simp only [TypeExpr.Mentions, TypeExpr.leaves, List.mem_append] at h
    have hlength : renderLength f length = renderLength g length := by
      cases length with
      | none => rfl
      | some t => exact ihl t rfl fun q hq => h q (Or.inl hq)
    rw [renderType, renderType, hlength, ih fun q hq => h q (Or.inr hq)]
  | func signature ih =>
    rw [renderType, renderType, renderSignature_congr he fun x hx =>
      ih x hx fun q hq => h q (mentions_signature hx hq)]
  | map key value ihk ihv =>
    simp only [TypeExpr.Mentions, TypeExpr.leaves, List.mem_append] at h
    rw [renderType, renderType, ihk fun q hq => h q (Or.inl hq), ihv fun q hq => h q (Or.inr hq)]
  | chan dir elem ih =>
    cases dir with
    | both => rw [renderType_both, renderType_both, ih h]
    | send | recv => rw [renderType, renderType, ih h]
  | struct fields ih =>
    have hlines := structLines_congr he false fun x hx =>
      ih x hx fun q hq => h q (mentions_field hx hq)
    cases fields with
    | nil => rfl
    | cons x fields => rw [renderType, renderType, hlines]
  | interface elems ih =>
    have hlines := interfaceLines_congr he fun e hd t ht =>
      ih e hd t ht fun q hq => h q (mentions_elem hd ht hq)
    rw [renderType, renderType, hlines]
  | instantiated base args ihb ih =>
    simp only [TypeExpr.Mentions, TypeExpr.leaves, List.mem_cons, List.mem_append] at h
    have hargs := renderTypes_congr fun a ha =>
      ih a ha fun q hq => h q (Or.inr (Or.inr (mem_typesLeaves.2 ⟨a, ha, hq⟩)))
    rw [renderType, renderType, he, ihb fun q hq => h q (Or.inr (Or.inl hq)), hargs]
  | union terms ih =>
    rw [renderType, renderType, renderTypes_congr fun t ht =>
      ih t ht fun q hq => h q (mem_typesLeaves.2 ⟨t, ht, hq⟩)]

theorem erases_congr {f g : Fidelity} (he : f.isErasing = g.isErasing) (t : TypeExpr)
    (h : ∀ q, t.Mentions q → f.keeps q = g.keeps q) : erases f t = erases g t := by
  rw [erases, erases, he, renderType_congr he t h]

/-! ## Erasure and the packages kept -/

/-- **Keeping more packages erases no type that was not erased before, and packages that a type does
not mention do not matter to it.** So keeping one package more leaves every type alone that was kept
as a whole or does not mention it. -/
theorem erases_kept (t : TypeExpr) (kept more : List String) :
    (kept ⊆ more →
      (erases (.erasing more) t = true → erases (.erasing kept) t = true) ∧
      (renderType (.erasing more) t = opaqueType → renderType (.erasing kept) t = opaqueType)) ∧
    ((∀ q, t.Mentions q → (q ∈ kept ↔ q ∈ more)) →
      renderType (.erasing kept) t = renderType (.erasing more) t ∧
      erases (.erasing kept) t = erases (.erasing more) t) ∧
    ∀ q, (erases (.erasing kept) t = false → erases (.erasing (q :: kept)) t = false) ∧
      (¬ t.Mentions q →
        renderType (.erasing (q :: kept)) t = renderType (.erasing kept) t ∧
        erases (.erasing (q :: kept)) t = erases (.erasing kept) t) := by
  have hmono : ∀ {kept more : List String}, kept ⊆ more →
      erases (.erasing more) t = true → erases (.erasing kept) t = true := by
    intro kept more hsub h
    obtain ⟨he, hopaque, hverbatim⟩ := erases_iff.1 h
    exact erases_iff.2 ⟨he, renderType_opaque_mono hsub t hopaque, hverbatim⟩
  have hlocal : ∀ {kept more : List String}, (∀ q, t.Mentions q → (q ∈ kept ↔ q ∈ more)) →
      renderType (.erasing kept) t = renderType (.erasing more) t ∧
      erases (.erasing kept) t = erases (.erasing more) t := by
    intro kept more h
    have hkeeps : ∀ q, t.Mentions q →
        (Fidelity.erasing kept).keeps q = (Fidelity.erasing more).keeps q := by
      intro q hq
      rw [Fidelity.keeps, Fidelity.keeps, Bool.eq_iff_iff, List.contains_iff_mem,
        List.contains_iff_mem]
      exact h q hq
    have he : (Fidelity.erasing kept).isErasing = (Fidelity.erasing more).isErasing := rfl
    exact ⟨renderType_congr he t hkeeps, erases_congr he t hkeeps⟩
  refine ⟨fun hsub => ⟨hmono hsub, renderType_opaque_mono hsub t⟩, hlocal, fun q => ⟨fun h => ?_,
    fun hq => hlocal fun p hp => ?_⟩⟩
  · rw [← Bool.not_eq_true] at h ⊢
    exact fun hmore => h (hmono (List.subset_cons_self q kept) hmore)
  · refine List.mem_cons.trans (or_iff_right ?_)
    rintro rfl
    exact hq hp

/-- A pointer to an instance of a type that is not kept, with an argument that is. -/
def foreignList : TypeExpr :=
  .pointer (.instantiated (.qualified "corev1" "List") [.qualified "io" "Reader"])

/-- It is erased whether or not a package is kept that it does not mention. -/
theorem erases_kept_foreignList :
    ["io"] ⊆ ["io", "os"] ∧ erases (.erasing ["io", "os"]) foreignList = true ∧
      erases (.erasing ["io"]) foreignList = true ∧ ¬ foreignList.Mentions "os" ∧
      renderType (.erasing ["os", "io"]) foreignList =
        renderType (.erasing ["io"]) foreignList := by
  have hsub : ["io"] ⊆ ["io", "os"] := by decide
  have herased : erases (.erasing ["io", "os"]) foreignList = true := by cbv
  have hmentions : ¬ foreignList.Mentions "os" := by decide
  obtain ⟨hmono, -, hone⟩ := erases_kept foreignList ["io"] ["io", "os"]
  exact ⟨hsub, herased, (hmono hsub).1 herased, hmentions, ((hone "os").2 hmentions).1⟩

end Understudy.Source

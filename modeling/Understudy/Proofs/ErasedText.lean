import Understudy.Proofs.Erasure
import Understudy.Proofs.FileReading

/-!
# Erased text stands for erased trees

Types are erased while they are written, by comparing texts. The text is still that of a tree, the
erased one:

> **A declaration of the erased text of a type is read as one of its erasure**
> (`parse_erasedText`).
-/

set_option autoImplicit false

namespace Understudy.Source

open Understudy.Source.Parser

/-- What the leaves of a type have to satisfy for its erased text to be read. Embedded entries of
interfaces can be anything, since they are not written. -/
def Leaf.Legible : Leaf → Prop
  | .name s | .qualifier s => IsToken .ident s
  | .length s => IsToken .ident s ∨ IsToken .number s
  | .arity n => 0 < n
  | .entry => True
  | .unsupported _ => False

theorem Leaf.Legible.erases {l : Leaf} (h : l.Legible) : l.Erases := by
  cases l with
  | name s | qualifier s => exact (isToken_ident_iff.1 h).1
  | unsupported s => exact h.elim
  | _ => trivial

theorem isToken_sentinel : IsToken .ident embedSentinel := by decide +kernel

theorem erasesTo_legible (kept : List String) : ErasesTo kept Leaf.Legible Leaf.ReadsBack where
  name _ h := h
  qualifier _ _ h := h
  length s h := Leaf.Reads.readsBack (l := .length s) h
  arity _ h := h
  sentinel := isToken_sentinel

/-- **Erasing a type as text agrees with erasing it as a tree.** -/
theorem parse_erasedText (kept : List String) {t : TypeExpr} (h : IsType Leaf.Legible true t) :
    SourceFile.parse ("package p\ntype X = " ++ renderType (.erasing kept) t ++ "\n") = .ok {
      package := "p"
      imports := []
      decls := [.type [{
        name := "X", typeParams := [], isAlias := true, type := eraseType kept t }]]
      isGenerated := false } := by
  have herased : IsType Leaf.ReadsBack true (eraseType kept t) := h.erase (erasesTo_legible kept)
  have hspell : ErasedAs kept t := (h.mono fun _ _ hl => hl.erases).spelled_erase
  have hp : IsToken .ident "p" := by decide +kernel
  have hx : IsToken .ident "X" := by decide +kernel
  generalize hls : typeSpecLexemes true "X" [] true (typeLexemes true (eraseType kept t)) = ls
  -- The text is that of a file with one declaration, whose lexemes are those of the erased tree:
  -- it remains to say that this declaration is read back and that its lexemes can stand there.
  have hspec : SpecReads typeSpec ls ⟨"X", [], true, eraseType kept t⟩ := by
    rw [← hls]
    exact typeSpec_reads hx (by simp) (by simp [OpensTypeParams]) herased.writes
  have hsound : Sound ls := by
    rw [← hls]
    exact sound_typeSpec (isToken_ident_iff.1 hx).1
      (List.forall_mem_nil (IsTypeParam Leaf.Lexes true)) (herased.mono fun _ _ hl => hl.lexes).sound
  have hitem := writesItem_type (fun s u rest hu => group_single s rest hspec hu) hspec.ends
  generalize hitems : [((declLexemes "type" ls, TopLevel.decl (.type
    [⟨"X", [], true, eraseType kept t⟩])), 0)] = items
  have hwrites : ∀ i ∈ items, WritesItem i.1.1 i.1.2 := by
    rw [← hitems]
    simpa using hitem
  have hsounds : ∀ i ∈ items, Sound i.1.1 := by
    rw [← hitems]
    simpa using sound_decl (by decide) hsound
  rw [parse_fileLexemes hp 0 hwrites hsounds, ← hitems]
  · rfl
  · rw [ErasedAs] at hspell
    rw [← hitems, ← hls]
    simp [fileLexemes, itemsLexemes, newlines, declLexemes, typeSpecLexemes, typeParamsLexemes,
      hspell]

/-- A struct that embeds two erased types: one is replaced, the other left out. -/
theorem parse_erasedText_struct :
    IsType Leaf.Legible true (.struct [.mk [] (.qualified "z" "T"),
      .mk [] (.pointer (.qualified "z" "U")),
      .mk ["a", "b"] (.map (.ident "string") (.qualified "k" "V"))]) ∧
    SourceFile.parse ("package p\ntype X = " ++ renderType (.erasing ["k"])
      (.struct [.mk [] (.qualified "z" "T"), .mk [] (.pointer (.qualified "z" "U")),
        .mk ["a", "b"] (.map (.ident "string") (.qualified "k" "V"))]) ++ "\n") = .ok {
      package := "p"
      imports := []
      decls := [.type [{
        name := "X", typeParams := [], isAlias := true
        type := .struct [.mk [] (.ident "Embedme"),
          .mk ["a", "b"] (.map (.ident "string") (.qualified "k" "V"))] }]]
      isGenerated := false } := by
  have hname : ∀ s ∈ ["z", "T", "U", "a", "b", "string", "k", "V"], IsToken .ident s := by
    decide +kernel
  have h : IsType Leaf.Legible true (.struct [.mk [] (.qualified "z" "T"),
      .mk [] (.pointer (.qualified "z" "U")),
      .mk ["a", "b"] (.map (.ident "string") (.qualified "k" "V"))]) := by
    refine .struct ?_ ?_
    · intro f hf n hn
      refine hname n ?_
      revert n
      revert f
      decide
    · intro f hf
      simp only [List.mem_cons, List.not_mem_nil, or_false] at hf
      rcases hf with rfl | rfl | rfl
      · exact .qualified (hname "z" (by decide)) (hname "T" (by decide))
      · exact .pointer (.qualified (hname "z" (by decide)) (hname "U" (by decide)))
      · exact .map (.ident (hname "string" (by decide)))
          (.qualified (hname "k" (by decide)) (hname "V" (by decide)))
  exact ⟨h, parse_erasedText ["k"] h⟩

end Understudy.Source

import Understudy.Proofs.FileSegments

/-!
# Brackets of parsed files

The tokens of a file are segments, and a segment closes the brackets that it opens unless it is a run
that is kept as text and ends with the file. Since a file begins and ends outside all brackets,

> **the brackets of a file that is parsed are closed**, except those of a run that is kept as text
> at the very end (`parse_brackets`).

The exception is real: neither an initializer nor a type of no known form has to close its brackets
before the file ends (`parse_brackets_open`), as bodies and lengths of arrays have to.
-/

set_option autoImplicit false

namespace Understudy.Source

/-- **The brackets of a file that is parsed are closed**, but for those of an initializer or a type
of no known form that runs to the end of the file. -/
theorem parse_brackets {source : String} {file : SourceFile}
    (h : SourceFile.parse source = .ok file) :
    ∃ ts, tokenize source = .ok ts ∧ (Token.openAfter 0 ts = some 0 ∨
      ∃ before run d, ts = before ++ run ∧ Token.openAfter 0 before = some 0 ∧
        Token.openAfter 0 run = some (d + 1) ∧
        (.value (Token.spell run) ∈ file.extracts ∨
          .unsupported (Token.spell run) ∈ file.extracts)) := by
  obtain ⟨xs, ht, hxs, he⟩ := parse_segments h
  refine ⟨_, ht, hxs.closes.imp_right ?_⟩
  rintro ⟨-, before, run, d, htokens, hbefore, hrun, hm⟩
  rw [← he] at hm
  exact ⟨before, run, d, htokens, hbefore, hrun, hm⟩

/-- A file with a variable whose initializer calls a function. -/
def callFile (text : String) : SourceFile where
  package := "p"
  imports := []
  decls := [.var [⟨["x"], none, [⟨text, false⟩]⟩]]
  isGenerated := false

theorem parse_brackets_sample :
    ∃ ts, tokenize "package p\nvar x = f(1)\n" = .ok ts ∧ (Token.openAfter 0 ts = some 0 ∨
      ∃ before run d, ts = before ++ run ∧ Token.openAfter 0 before = some 0 ∧
        Token.openAfter 0 run = some (d + 1) ∧
        (.value (Token.spell run) ∈ (callFile "f(1)").extracts ∨
          .unsupported (Token.spell run) ∈ (callFile "f(1)").extracts)) :=
  parse_brackets (by cbv)

/-- The function behind an initializer with an open bracket is a part of the initializer. -/
theorem parse_brackets_open :
    SourceFile.parse "package p\nvar x = f(1\nfunc F() \x7b\x7d\n" =
        .ok (callFile "f(1\nfunc F() \x7b\x7d") ∧
      (tokenize "package p\nvar x = f(1\nfunc F() \x7b\x7d\n").map (Token.openAfter 0) =
        .ok (some 1) := by
  refine ⟨?_, ?_⟩ <;> cbv

end Understudy.Source

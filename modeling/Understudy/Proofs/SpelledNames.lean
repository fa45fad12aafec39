import Mathlib
import Understudy.Proofs.PathMoves

/-!
# Names that are spelled

Import paths and messages show a name as a text, and there the faults in its bytes become
replacement characters. What has a meaning in a path is not among the characters that come up so: a
dot or a slash of the text stands for a byte of the name (`decodeNext_low`). So **a plain name is
spelled by a plain name** (`isPlain_text`), even if by that of another directory.
-/

set_option autoImplicit false

namespace Understudy.Text

/-! ## Low characters -/

/-- Whether a character comes before the digits, where the dot and the slash are. -/
def IsLow (c : Char) : Prop := 0 < c.toNat ∧ c.toNat < 48

/-- A character of several bytes is not low. -/
theorem continueDecoding_not_low {n read code size : Nat} {bs : List UInt8} {c : Char}
    (hcode : 48 ≤ code ∨ 0 < code ∧ 0 < n)
    (h : continueDecoding n read code bs = .char c size) : ¬IsLow c := by
  induction n generalizing read code bs with
  | zero =>
    cases h
    rw [IsLow, Char.toNat_ofNat]
    split <;> omega
  | succ n ih =>
    cases bs with
    | nil => cases h
    | cons b bs =>
      rw [continueDecoding] at h
      split at h
      · exact ih (Or.inl (by unfold addPayload; omega)) h
      · cases h

/-- The first byte of a longer character says how long it is. -/
theorem le_of_expectedSize {b : UInt8} {n : Nat} (h : expectedSize b = n + 2) :
    n = 0 ∧ 0xc2 ≤ b.toNat ∨ n = 1 ∧ 0xe0 ≤ b.toNat ∨ n = 2 ∧ 0xf0 ≤ b.toNat := by
  unfold expectedSize at h
  simp only [UInt8.lt_iff_toNat_lt, UInt8.reduceToNat] at h
  split at h
  · omega
  · split at h
    · omega
    · split at h
      · omega
      · split at h
        · omega
        · split at h <;> omega

/-- The first two bytes of a longer character make it a high one: the shortest form is no form of a
low character. -/
theorem addPayload_first {b b₂ : UInt8} {n : Nat} (hsize : expectedSize b = n + 2)
    (hlo : (secondByteRange b).1 ≤ b₂) {base : Nat}
    (hbase : base = if n == 0 then 0xc0 else if n == 1 then 0xe0 else 0xf0) :
    48 ≤ addPayload (b.toNat - base) b₂ ∨ 0 < addPayload (b.toNat - base) b₂ ∧ 0 < n := by
  have hne : ∀ {k : UInt8}, b ≠ k → b.toNat ≠ k.toNat := fun h he => h (UInt8.toNat_inj.1 he)
  unfold addPayload
  rcases le_of_expectedSize hsize with ⟨rfl, hb⟩ | ⟨rfl, hb⟩ | ⟨rfl, hb⟩
  · obtain rfl : base = 0xc0 := hbase
    omega
  · obtain rfl : base = 0xe0 := hbase
    by_cases he : b = 0xe0
    · subst he
      have hsecond : 0xa0 ≤ b₂.toNat := hlo
      omega
    · have hb' : b.toNat ≠ 0xe0 := hne he
      omega
  · obtain rfl : base = 0xf0 := hbase
    by_cases he : b = 0xf0
    · subst he
      have hsecond : 0x90 ≤ b₂.toNat := hlo
      omega
    · have hb' : b.toNat ≠ 0xf0 := hne he
      omega

/-- **A low character is its own byte.** -/
theorem decodeNext_low {b : UInt8} {bs : List UInt8} {c : Char} {size : Nat}
    (h : decodeNext b bs = .char c size) (hc : IsLow c) : b.toNat = c.toNat ∧ size = 1 := by
  rw [decodeNext] at h
  split at h
  · cases h
  · cases h
    obtain ⟨hpos, -⟩ := hc
    rw [Char.toNat_ofNat] at hpos ⊢
    split
    · exact ⟨rfl, rfl⟩
    · next hv => simp [hv] at hpos
  · next n hsize =>
    cases bs with
    | nil => cases h
    | cons b₂ bs =>
      dsimp only at h
      split at h
      · next hrange =>
        rw [Bool.and_eq_true, decide_eq_true_eq] at hrange
        exact absurd hc (continueDecoding_not_low (addPayload_first hsize hrange.1 rfl) h)
      · cases h

theorem not_isLow_replacement : ¬IsLow '\ufffd' := by
  unfold IsLow
  decide

/-- Low characters are read from their own bytes. -/
theorem mem_of_isLow {skip : Nat} {bs : List UInt8} {c : Char}
    (h : c ∈ decodeLossyFrom skip bs) (hc : IsLow c) : ∃ b ∈ bs, b.toNat = c.toNat := by
  fun_induction decodeLossyFrom skip bs with
  | case1 => cases h
  | case2 skip b bs ih =>
    obtain ⟨b', hb', he⟩ := ih h
    exact ⟨b', List.mem_cons_of_mem _ hb', he⟩
  | case3 b bs d size hnext ih =>
    rcases List.mem_cons.1 h with rfl | h
    · exact ⟨b, List.mem_cons_self, (decodeNext_low hnext hc).1⟩
    · obtain ⟨b', hb', he⟩ := ih h
      exact ⟨b', List.mem_cons_of_mem _ hb', he⟩
  | case4 b bs size hnext ih =>
    rcases List.mem_cons.1 h with rfl | h
    · exact absurd hc not_isLow_replacement
    · obtain ⟨b', hb', he⟩ := ih h
      exact ⟨b', List.mem_cons_of_mem _ hb', he⟩
  | case5 b bs hnext =>
    rw [List.mem_singleton.1 h] at hc
    exact absurd hc not_isLow_replacement

/-- What begins with a low character begins with its byte. -/
theorem decodeLossyFrom_eq_cons {bs : List UInt8} {c : Char} {cs : List Char}
    (h : decodeLossyFrom 0 bs = c :: cs) (hc : IsLow c) :
    ∃ b rest, bs = b :: rest ∧ b.toNat = c.toNat ∧ decodeLossyFrom 0 rest = cs := by
  cases bs with
  | nil => cases h
  | cons b bs =>
    rw [decodeLossyFrom] at h
    split at h
    · next d size hnext =>
      obtain ⟨rfl, hrest⟩ := List.cons.inj h
      obtain ⟨hb, rfl⟩ := decodeNext_low hnext hc
      exact ⟨b, bs, rfl, hb, hrest⟩
    · obtain ⟨rfl, -⟩ := List.cons.inj h
      exact absurd hc not_isLow_replacement
    · obtain ⟨rfl, -⟩ := List.cons.inj h
      exact absurd hc not_isLow_replacement

theorem decodeLossyFrom_eq_nil {bs : List UInt8} (h : decodeLossyFrom 0 bs = []) : bs = [] := by
  cases bs with
  | nil => rfl
  | cons b bs =>
    rw [decodeLossyFrom] at h
    split at h <;> cases h

/-- Bytes that are read as low characters are their bytes. -/
theorem decodeLossyFrom_low {bs : List UInt8} {cs : List Char} (h : decodeLossyFrom 0 bs = cs)
    (hcs : ∀ c ∈ cs, IsLow c) : bs.map UInt8.toNat = cs.map Char.toNat := by
  induction cs generalizing bs with
  | nil => rw [decodeLossyFrom_eq_nil h]; rfl
  | cons c cs ih =>
    obtain ⟨hc, hcs⟩ := List.forall_mem_cons.1 hcs
    obtain ⟨b, rest, rfl, hb, hrest⟩ := decodeLossyFrom_eq_cons h hc
    rw [List.map_cons, List.map_cons, hb, ih hrest hcs]

end Understudy.Text

namespace Understudy.Files

open Text

/-! ## The bytes of a text -/

namespace RawText

theorem mem_bytes_ofText {s : String} {b : UInt8} :
    b ∈ (ofText s).bytes ↔ ∃ c ∈ s.toList, b ∈ String.utf8EncodeChar c := by
  rw [ofText, String.toUTF8, ← String.utf8Encode_toList, ← List.mem_flatMap, List.utf8Encode,
    List.data_toByteArray]

/-- The slash is no part of another character. -/
theorem slash_mem_utf8EncodeChar {c : Char} : slash ∈ String.utf8EncodeChar c ↔ c = '/' := by
  have hne : ∀ n < 256, 128 ≤ n → slash ≠ UInt8.ofNat n := by
    intro n hn hlow he
    have hnat := congrArg UInt8.toNat he
    rw [UInt8.toNat_ofNat', Nat.mod_eq_of_lt hn] at hnat
    have hslash : slash.toNat = 47 := rfl
    omega
  constructor
  · intro h
    rw [String.utf8EncodeChar] at h
    split at h
    · next hsmall =>
      have hnat := congrArg UInt8.toNat (List.mem_singleton.1 h)
      rw [UInt8.toNat_ofNat', Nat.mod_eq_of_lt (by omega)] at hnat
      exact Char.toNat_inj.1 hnat.symm
    · split at h
      · simp only [List.mem_cons, List.not_mem_nil, or_false] at h
        rcases h with h | h <;> exact absurd h (hne _ (by omega) (by omega))
      · split at h <;> simp only [List.mem_cons, List.not_mem_nil, or_false] at h
        · rcases h with h | h | h <;> exact absurd h (hne _ (by omega) (by omega))
        · rcases h with h | h | h | h <;> exact absurd h (hne _ (by omega) (by omega))
  · rintro rfl
    decide

/-- **A text has a slash among its bytes if it has one.** -/
theorem slash_mem_bytes_ofText {s : String} : slash ∈ (ofText s).bytes ↔ '/' ∈ s.toList := by
  simp only [mem_bytes_ofText, slash_mem_utf8EncodeChar, exists_eq_right]

end RawText

namespace DiskPath

/-- **A plain name is spelled by a plain name.** -/
theorem isPlain_text {name : RawText} (h : IsPlain name) : IsPlain (.ofText name.text) := by
  by_cases htext : name.isText = true
  · rwa [RawText.ofText_text htext]
  · have hnone : name.text? = none := by simpa [RawText.isText] using htext
    have hspelled : name.text = .ofList (decodeLossyFrom 0 name.bytes) := by
      rw [RawText.text, hnone, Option.getD_none]
    have hne : ∀ s : String, (∀ c ∈ s.toList, IsLow c) →
        (RawText.ofText s).bytes.map UInt8.toNat = s.toList.map Char.toNat →
          name ≠ .ofText s → RawText.ofText name.text ≠ .ofText s := by
      intro s hlow hbytes hname he
      rw [RawText.ofText_inj, hspelled, ← String.toList_inj, String.toList_ofList] at he
      refine hname (RawText.bytes_inj.1 ?_)
      refine List.map_injective_iff.2 (fun a b => UInt8.toNat_inj.1) ?_
      exact (decodeLossyFrom_low he hlow).trans hbytes.symm
    obtain ⟨hidle, hup, hslash⟩ := h
    simp only [isIdleSegment, Bool.or_eq_false_iff, beq_eq_false_iff_ne] at hidle
    have hdot : ∀ c ∈ ['.', '.'], IsLow c := by simp [IsLow]
    refine ⟨?_, hne ".." hdot rfl hup, ?_⟩
    · simp only [isIdleSegment, Bool.or_eq_false_iff, beq_eq_false_iff_ne]
      exact ⟨hne "" (by simp) rfl hidle.1, hne "." (by simp [IsLow]) rfl hidle.2⟩
    · rw [RawText.slash_mem_bytes_ofText, hspelled, String.toList_ofList]
      intro hmem
      obtain ⟨b, hb, hnat⟩ := mem_of_isLow hmem (by simp [IsLow])
      have he : b = RawText.slash := UInt8.toNat_inj.1 hnat
      exact hslash (he ▸ hb)

end DiskPath

end Understudy.Files

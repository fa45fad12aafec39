import Understudy.Text.Utf8

/-!
# Raw texts

The names in a directory are bytes. Most are UTF-8, but none has to be, so a name or a path is kept
as its bytes (`RawText`) and not as the text that they spell. A text is needed where a name goes into
a message or an import path: there every fault in the bytes becomes one replacement character, and
two names can become one text.
-/

set_option autoImplicit false

namespace Understudy.Files

/-- A name or a path as it is stored. -/
structure RawText where
  bytes : List UInt8
  deriving Repr, DecidableEq

namespace RawText

/-- The byte between the names of a path. -/
def slash : UInt8 := 0x2f

/-- The UTF-8 form of a text. -/
def ofText (text : String) : RawText := ⟨text.toUTF8.data.toList⟩

instance : Coe String RawText := ⟨ofText⟩

/-- The text with these bytes, if they are UTF-8. -/
def text? (r : RawText) : Option String := String.fromUTF8? ⟨⟨r.bytes⟩⟩

/-- Whether the bytes are those of a text. -/
def isText (r : RawText) : Bool := r.text?.isSome

/-- The text with these bytes, with one replacement character for each fault. -/
def text (r : RawText) : String := r.text?.getD (.ofList (Text.decodeLossyFrom 0 r.bytes))

instance : Append RawText := ⟨fun a b => ⟨a.bytes ++ b.bytes⟩⟩

instance : LT RawText := ⟨fun a b => a.bytes < b.bytes⟩

instance (a b : RawText) : Decidable (a < b) := inferInstanceAs (Decidable (a.bytes < b.bytes))

def isEmpty (r : RawText) : Bool := r.bytes.isEmpty

/-- Some raw texts with slashes between them. -/
def joined (rs : List RawText) : RawText := ⟨List.intercalate [slash] (rs.map bytes)⟩

variable {a b r : RawText} {s t : String}

@[simp] theorem bytes_append (a b : RawText) : (a ++ b).bytes = a.bytes ++ b.bytes := rfl

@[simp] theorem bytes_empty : (ofText "").bytes = [] := rfl

@[simp] theorem bytes_slash : (ofText "/").bytes = [slash] := rfl

theorem bytes_inj : a.bytes = b.bytes ↔ a = b := by
  cases a
  cases b
  simp

@[simp] theorem bytes_eq_nil : r.bytes = [] ↔ r = ofText "" := bytes_inj

@[simp] theorem isEmpty_iff : r.isEmpty = true ↔ r = ofText "" := by
  rw [isEmpty, List.isEmpty_iff, bytes_eq_nil]

@[simp] theorem isEmpty_eq_false_iff : r.isEmpty = false ↔ r ≠ ofText "" := by
  rw [← Bool.not_eq_true, isEmpty_iff]

@[simp] theorem append_empty (r : RawText) : r ++ ofText "" = r := by
  simp [← bytes_inj]

@[simp] theorem empty_append (r : RawText) : ofText "" ++ r = r := by
  simp [← bytes_inj]

@[simp] theorem append_eq_empty : a ++ b = ofText "" ↔ a = ofText "" ∧ b = ofText "" := by
  rw [← bytes_eq_nil, bytes_append, List.append_eq_nil_iff, bytes_eq_nil, bytes_eq_nil]

theorem append_assoc (a b r : RawText) : a ++ b ++ r = a ++ (b ++ r) := by
  simp [← bytes_inj]

theorem bytes_joined (rs : List RawText) :
    (joined rs).bytes = List.intercalate [slash] (rs.map bytes) := rfl

/-! ## Texts -/

theorem ofText_append (s t : String) : ofText (s ++ t) = ofText s ++ ofText t := by
  simp [← bytes_inj, ofText]

@[simp] theorem text?_ofText (s : String) : (ofText s).text? = some s := dif_pos s.isValidUTF8

@[simp] theorem text_ofText (s : String) : (ofText s).text = s := by
  rw [text, text?_ofText, Option.getD_some]

/-- Only the UTF-8 form of a text has its bytes. -/
theorem eq_ofText_of_text? (h : r.text? = some s) : r = ofText s := by
  unfold text? String.fromUTF8? at h
  split at h
  · cases h
    rfl
  · cases h

/-- A text is read back from its bytes. -/
theorem ofText_text (h : r.isText = true) : ofText r.text = r := by
  obtain ⟨s, hs⟩ := Option.isSome_iff_exists.1 h
  rw [eq_ofText_of_text? hs, text_ofText]

theorem map_ofText_text {rs : List RawText} (h : ∀ r ∈ rs, r.isText = true) :
    (rs.map text).map ofText = rs := by
  induction rs with
  | nil => rfl
  | cons r rs ih =>
    obtain ⟨hr, hrs⟩ := List.forall_mem_cons.1 h
    rw [List.map_cons, List.map_cons, ofText_text hr, ih hrs]

@[simp] theorem isText_ofText (s : String) : (ofText s).isText = true := by
  rw [isText, text?_ofText, Option.isSome_some]

@[simp] theorem ofText_inj : ofText s = ofText t ↔ s = t := by
  refine ⟨fun h => ?_, congrArg ofText⟩
  rw [← text_ofText s, h, text_ofText]

end RawText

end Understudy.Files

import Mathlib
import Understudy.Files.Disk

/-!
# Paths by their moves

A path is kept as it was put together, so two texts can mean one path. What a path means is the
list of its moves: the segments that are neither empty nor a dot. Two facts make them useful:

> **joining a relative path adds its moves** (`moves_join`), and
> **the components of a path are its beginning and its moves** (`components_eq`).

So nothing has to be said about slashes any more. A name that is a move by itself is *plain*; the
moves of a path between its steps to a parent are plain names (`isPlain_of_mem_moves`).
-/

set_option autoImplicit false

namespace Understudy.Text

/-! ## Pieces -/

section Pieces

variable {α : Type} {p : α → Bool}

theorem pieces_ne_nil (cs : List α) : pieces p cs ≠ [] := by
  cases cs with
  | nil => simp [pieces]
  | cons c cs =>
    rw [pieces]
    split
    · simp
    · split <;> simp

theorem pieces_of_sep {c : α} (hc : p c = true) (cs : List α) :
    pieces p (c :: cs) = [] :: pieces p cs := by
  rw [pieces, if_pos hc]

/-- An element that does not separate belongs to the first piece. -/
theorem pieces_of_not_sep {c : α} (hc : ¬p c = true) {cs w : List α}
    {ws : List (List α)} (h : pieces p cs = w :: ws) :
    pieces p (c :: cs) = (c :: w) :: ws := by
  rw [pieces, if_neg hc, h]

theorem pieces_append {c : α} (hc : p c = true) (as bs : List α) :
    pieces p (as ++ c :: bs) = pieces p as ++ pieces p bs := by
  induction as with
  | nil => exact pieces_of_sep hc bs
  | cons a as ih =>
    by_cases ha : p a = true
    · rw [List.cons_append, pieces_of_sep ha, pieces_of_sep ha, ih]
      rfl
    · obtain ⟨w, ws, hw⟩ := List.exists_cons_of_ne_nil (pieces_ne_nil (p := p) as)
      rw [hw] at ih
      rw [List.cons_append, pieces_of_not_sep ha ih, pieces_of_not_sep ha hw]
      rfl

theorem pieces_eq_singleton {cs : List α} (h : ∀ c ∈ cs, ¬p c = true) :
    pieces p cs = [cs] := by
  induction cs with
  | nil => rfl
  | cons c cs ih =>
    obtain ⟨hc, hcs⟩ := List.forall_mem_cons.1 h
    exact pieces_of_not_sep hc (ih hcs)

/-- No piece holds a separator. -/
theorem not_sep_of_mem_pieces {cs w : List α} (h : w ∈ pieces p cs) :
    ∀ c ∈ w, ¬p c = true := by
  induction cs generalizing w with
  | nil =>
    rw [pieces, List.mem_singleton] at h
    simp [h]
  | cons c cs ih =>
    by_cases hc : p c = true
    · rw [pieces_of_sep hc] at h
      rcases List.mem_cons.1 h with rfl | h
      · simp
      · exact ih h
    · obtain ⟨v, vs, hv⟩ := List.exists_cons_of_ne_nil (pieces_ne_nil (p := p) cs)
      rw [pieces_of_not_sep hc hv] at h
      rw [hv] at ih
      rcases List.mem_cons.1 h with rfl | h
      · exact List.forall_mem_cons.2 ⟨hc, ih (List.mem_cons_self ..)⟩
      · exact ih (List.mem_cons_of_mem _ h)

/-- Pieces that are put together again are the pieces they were. -/
theorem pieces_intercalate {c : α} (hc : p c = true) {ws : List (List α)} (hne : ws ≠ [])
    (h : ∀ w ∈ ws, ∀ d ∈ w, ¬p d = true) : pieces p (List.intercalate [c] ws) = ws := by
  induction ws with
  | nil => exact absurd rfl hne
  | cons w ws ih =>
    obtain ⟨hw, hws⟩ := List.forall_mem_cons.1 h
    cases ws with
    | nil => simpa using pieces_eq_singleton hw
    | cons v vs =>
      rw [List.intercalate_cons_cons, List.append_assoc, List.singleton_append,
        pieces_append hc, pieces_eq_singleton hw, ih (by simp) hws]
      rfl

end Pieces

end Understudy.Text

namespace Understudy.Files.DiskPath

open Text
open RawText (slash)

/-- Whether a name is a move by itself: it is no slash, no dot and no step to a parent, and there
is something of it. -/
def IsPlain (name : RawText) : Prop :=
  isIdleSegment name = false ∧ name ≠ ".." ∧ slash ∉ name.bytes

instance (name : RawText) : Decidable (IsPlain name) :=
  inferInstanceAs (Decidable (_ ∧ _ ∧ _))

/-- The segments that lead somewhere. -/
def movesOf (ss : List RawText) : List RawText := ss.filter fun s => !isIdleSegment s

/-- The moves of a path. -/
def moves (p : DiskPath) : List RawText := movesOf p.segments

/-- The component of a move. -/
def moveComponent (move : RawText) : Component := if move = ".." then .up else .name move

/-- What stands in front of the moves of a path. -/
def lead (p : DiskPath) : List Component :=
  if p.isAbsolute then [.root] else if p.segments.head? = some (.ofText ".") then [.here] else []

/-! ## Segments -/

theorem segments_append (a b : RawText) :
    (⟨a ++ "/" ++ b⟩ : DiskPath).segments =
      (⟨a⟩ : DiskPath).segments ++ (⟨b⟩ : DiskPath).segments := by
  rw [segments, segments, segments, ← List.map_append]
  simp only [RawText.bytes_append, RawText.bytes_slash, List.append_assoc, List.singleton_append]
  rw [pieces_append (by decide)]

theorem segments_ne_nil (p : DiskPath) : p.segments ≠ [] := by
  simp [segments, pieces_ne_nil]

theorem segments_of_no_slash {s : RawText} (h : slash ∉ s.bytes) :
    (⟨s⟩ : DiskPath).segments = [s] := by
  rw [segments, pieces_eq_singleton, List.map_singleton]
  intro c hc he
  exact h (eq_of_beq he ▸ hc)

/-- No segment holds a slash. -/
theorem no_slash_of_mem {p : DiskPath} {s : RawText} (h : s ∈ p.segments) : slash ∉ s.bytes := by
  obtain ⟨w, hw, rfl⟩ := List.mem_map.1 h
  intro hc
  exact not_sep_of_mem_pieces hw _ hc rfl

/-- Segments that are joined are the segments they were. -/
theorem segments_joined {ss : List RawText} (hne : ss ≠ [])
    (h : ∀ s ∈ ss, slash ∉ s.bytes) :
    (⟨.joined ss⟩ : DiskPath).segments = ss := by
  rw [segments, RawText.bytes_joined, pieces_intercalate (by decide) (by simpa using hne)]
  · simp [Function.comp_def]
  · intro w hw d hd he
    obtain ⟨s, hs, rfl⟩ := List.mem_map.1 hw
    exact h s hs (eq_of_beq he ▸ hd)

theorem segments_empty : (⟨""⟩ : DiskPath).segments = [.ofText ""] := rfl

/-- A slash at the end leaves an empty segment. -/
theorem exists_of_slash {p : DiskPath} (h : p.raw.bytes.getLast? = some slash) :
    ∃ a : RawText, p.raw = a ++ "/" := by
  obtain ⟨cs, hcs⟩ := List.getLast?_eq_some_iff.1 h
  refine ⟨⟨cs⟩, ?_⟩
  rw [← RawText.bytes_inj, hcs]
  rfl

/-- **The segments of a joined path** are those of both, an empty segment apart. -/
theorem segments_join {p q : DiskPath} (hp : p.raw ≠ "") (hq : q.isAbsolute = false) :
    (p.join q).segments = p.segments ++ q.segments ∨
      ∃ ss, ss ≠ [] ∧ p.segments = ss ++ [.ofText ""] ∧ (p.join q).segments = ss ++ q.segments := by
  have hempty : p.raw.isEmpty = false := by simpa using hp
  rw [join, hq, if_neg Bool.false_ne_true]
  by_cases hs : p.raw.bytes.getLast? = some slash
  · obtain ⟨a, ha⟩ := exists_of_slash hs
    right
    refine ⟨(⟨a⟩ : DiskPath).segments, segments_ne_nil _, ?_, ?_⟩
    · have hsplit := segments_append a ""
      rwa [RawText.append_empty, ← ha] at hsplit
    · simp only [hs, BEq.rfl, Bool.or_true, if_true, RawText.append_empty]
      rw [ha, segments_append]
  · left
    have hb : (p.raw.bytes.getLast? == some slash) = false := by simpa using hs
    simp only [hb, hempty, Bool.or_self, Bool.false_eq_true, if_false]
    exact segments_append _ _

theorem join_empty {p q : DiskPath} (hp : p.raw = "") : p.join q = q := by
  rw [join]
  split
  · rfl
  · simp [hp]

theorem join_absolute {p q : DiskPath} (hq : q.isAbsolute = true) : p.join q = q := by
  rw [join, if_pos hq]

/-! ## Moves -/

@[simp] theorem movesOf_nil : movesOf [] = [] := rfl

theorem movesOf_idle {s : RawText} (h : isIdleSegment s = true) (ss : List RawText) :
    movesOf (s :: ss) = movesOf ss := by
  simp [movesOf, h]

theorem movesOf_move {s : RawText} (h : isIdleSegment s = false) (ss : List RawText) :
    movesOf (s :: ss) = s :: movesOf ss := by
  simp [movesOf, h]

@[simp] theorem movesOf_append (ss us : List RawText) :
    movesOf (ss ++ us) = movesOf ss ++ movesOf us := List.filter_append ..

@[simp] theorem movesOf_empty : movesOf [.ofText ""] = [] := rfl

theorem movesOf_reverse (ss : List RawText) : movesOf ss.reverse = (movesOf ss).reverse :=
  List.filter_reverse ..

theorem moves_append (a b : RawText) :
    (⟨a ++ "/" ++ b⟩ : DiskPath).moves = (⟨a⟩ : DiskPath).moves ++ (⟨b⟩ : DiskPath).moves := by
  rw [moves, segments_append, movesOf_append]
  rfl

theorem moves_plain {name : RawText} (h : IsPlain name) : (⟨name⟩ : DiskPath).moves = [name] := by
  rw [moves, segments_of_no_slash h.2.2, movesOf_move h.1, movesOf_nil]

@[simp] theorem moves_empty : (⟨""⟩ : DiskPath).moves = [] := rfl

/-- **Joining a relative path adds its moves.** -/
theorem moves_join {p q : DiskPath} (hq : q.isAbsolute = false) :
    (p.join q).moves = p.moves ++ q.moves := by
  by_cases hp : p.raw = ""
  · have hempty : p = ⟨""⟩ := by rw [← hp]
    rw [join_empty hp, hempty, moves_empty, List.nil_append]
  · rcases segments_join hp hq with h | ⟨ss, -, hps, h⟩
    · rw [moves, h, movesOf_append]
      rfl
    · rw [moves, h, movesOf_append, moves, hps, movesOf_append, movesOf_empty, List.append_nil]
      rfl

theorem isPlain_of_mem_moves {p : DiskPath} {m : RawText} (h : m ∈ p.moves) (hm : m ≠ "..") :
    IsPlain m := by
  obtain ⟨hseg, hidle⟩ := List.mem_filter.1 h
  exact ⟨by simpa using hidle, hm, no_slash_of_mem hseg⟩

theorem IsPlain.ne_empty {name : RawText} (h : IsPlain name) : name ≠ "" := by
  rintro rfl
  exact absurd h (by decide)

theorem IsPlain.relative {name : RawText} (h : IsPlain name) :
    (⟨name⟩ : DiskPath).isAbsolute = false := by
  rw [isAbsolute, beq_eq_false_iff_ne]
  intro hc
  exact h.2.2 (List.mem_of_mem_head? hc)

/-! ## Components -/

theorem innerComponent?_eq (s : RawText) :
    innerComponent? s = if isIdleSegment s then none else some (moveComponent s) := by
  rw [innerComponent?, moveComponent]
  simp only [beq_iff_eq]
  split
  · rfl
  · split <;> rfl

theorem filterMap_innerComponent? (ss : List RawText) :
    ss.filterMap innerComponent? = (movesOf ss).map moveComponent := by
  induction ss with
  | nil => rfl
  | cons s ss ih =>
    rw [List.filterMap_cons, innerComponent?_eq, ih]
    cases hs : isIdleSegment s with
    | true => rw [movesOf_idle hs, if_pos rfl]
    | false =>
      rw [movesOf_move hs, if_neg Bool.false_ne_true]
      rfl

/-- **The components of a path are its beginning and its moves.** -/
theorem components_eq (p : DiskPath) : p.components = p.lead ++ p.moves.map moveComponent := by
  rw [components, lead, filterMap_innerComponent?]
  simp only [beq_iff_eq]
  split
  · rfl
  · split <;> rfl

/-- A relative path that is joined to a path does not change where the path begins. -/
theorem isAbsolute_join {p q : DiskPath} (hp : p.raw ≠ "") (hq : q.isAbsolute = false) :
    (p.join q).isAbsolute = p.isAbsolute := by
  rw [join, hq, if_neg Bool.false_ne_true, isAbsolute, isAbsolute]
  have hne : p.raw.bytes ≠ [] := by simpa using hp
  obtain ⟨c, cs, hc⟩ := List.exists_cons_of_ne_nil hne
  simp [RawText.bytes_append, hc]

/-- What stands in front does not change either. -/
theorem lead_join {p q : DiskPath} (hp : p.raw ≠ "") (hq : q.isAbsolute = false) :
    (p.join q).lead = p.lead := by
  have hhead : (p.join q).segments.head? = p.segments.head? := by
    rcases segments_join hp hq with h | ⟨ss, hss, hps, h⟩
    · rw [h, List.head?_append_of_ne_nil _ (segments_ne_nil p)]
    · rw [h, hps, List.head?_append_of_ne_nil _ hss, List.head?_append_of_ne_nil _ hss]
  rw [lead, lead, isAbsolute_join hp hq, hhead]

/-- **A plain name that is joined to a path is one more component.** -/
theorem components_join_name (p : DiskPath) {name : RawText} (h : IsPlain name) :
    (p.join ⟨name⟩).components = p.components ++ [.name name] := by
  have hmove : moveComponent name = .name name := if_neg h.2.1
  rw [components_eq, components_eq, moves_join h.relative, moves_plain h, List.map_append,
    ← List.append_assoc, List.map_singleton, hmove]
  congr 2
  by_cases hp : p.raw = ""
  · have hempty : p = ⟨""⟩ := by rw [← hp]
    have hdot : name ≠ "." := by
      rintro rfl
      exact absurd h.1 (by decide)
    rw [join_empty hp, hempty, lead, h.relative, segments_of_no_slash h.2.2]
    simp only [List.head?_cons, Option.some.injEq, hdot]
    rfl
  · exact lead_join hp h.relative

theorem join_ne_empty {p : DiskPath} (hp : p.raw ≠ "") (q : DiskPath) : (p.join q).raw ≠ "" := by
  rw [join]
  split
  · next hq =>
    intro he
    rw [isAbsolute, he] at hq
    exact absurd hq (by decide)
  · intro he
    rw [← RawText.bytes_inj] at he
    simp only [RawText.bytes_append] at he
    exact hp (RawText.bytes_inj.1 (List.append_eq_nil_iff.1 (List.append_eq_nil_iff.1 he).1).1)

theorem isAbsolute_join_name (p : DiskPath) {name : RawText} (h : IsPlain name) :
    (p.join ⟨name⟩).isAbsolute = p.isAbsolute := by
  by_cases hp : p.raw = ""
  · rw [join_empty hp, h.relative, isAbsolute, hp]
    rfl
  · exact isAbsolute_join hp h.relative

/-- A path that ends with a slash, or the empty path, is extended as it is. -/
theorem join_of_slash {p q : DiskPath} (hp : p.raw = "" ∨ p.raw.bytes.getLast? = some slash)
    (hq : q.isAbsolute = false) : p.join q = ⟨p.raw ++ q.raw⟩ := by
  rw [join, hq, if_neg Bool.false_ne_true, DiskPath.mk.injEq, if_pos, RawText.append_empty]
  rcases hp with hp | hp <;> simp [hp]

/-- Another path is extended after a slash. -/
theorem join_of_no_slash {p q : DiskPath} (hp : p.raw ≠ "")
    (hs : p.raw.bytes.getLast? ≠ some slash) (hq : q.isAbsolute = false) :
    p.join q = ⟨p.raw ++ "/" ++ q.raw⟩ := by
  rw [join, hq, if_neg Bool.false_ne_true, DiskPath.mk.injEq, if_neg]
  simp [hp, hs]

/-- A name is joined to a longer path as it is joined to the end of it. -/
theorem join_join_name (p : DiskPath) {q : DiskPath} (hq : q.isAbsolute = false) {name : RawText}
    (h : IsPlain name) : (p.join q).join ⟨name⟩ = p.join (q.join ⟨name⟩) := by
  by_cases hp : p.raw = ""
  · rw [join_empty hp, join_empty hp]
  have hqn : (q.join ⟨name⟩).isAbsolute = false := by rw [isAbsolute_join_name q h, hq]
  -- `p` with the slash after it, if it needs one.
  obtain ⟨a, ha, hjoin⟩ : ∃ a : RawText, a.bytes.getLast? = some slash ∧
      ∀ r : DiskPath, r.isAbsolute = false → p.join r = ⟨a ++ r.raw⟩ := by
    by_cases hs : p.raw.bytes.getLast? = some slash
    · exact ⟨p.raw, hs, fun r hr => join_of_slash (Or.inr hs) hr⟩
    · exact ⟨p.raw ++ "/", by simp [RawText.bytes_append], fun r hr => join_of_no_slash hp hs hr⟩
  rw [hjoin q hq, hjoin _ hqn]
  by_cases hqe : q.raw = ""
  · rw [join_empty hqe, hqe, RawText.append_empty, join_of_slash (Or.inr ha) h.relative]
  · have hlast : (a ++ q.raw).bytes.getLast? = q.raw.bytes.getLast? := by
      have hne : q.raw.bytes ≠ [] := by simpa using hqe
      rw [RawText.bytes_append, List.getLast?_append_of_ne_nil _ hne]
    by_cases hs : q.raw.bytes.getLast? = some slash
    · rw [join_of_slash (Or.inr (hlast.trans hs)) h.relative, join_of_slash (Or.inr hs) h.relative,
        RawText.append_assoc]
    · have hne : (a ++ q.raw) ≠ "" := by simp [hqe]
      rw [join_of_no_slash hne (by rwa [hlast]) h.relative, join_of_no_slash hqe hs h.relative]
      simp only [RawText.append_assoc]

/-! ## The path above -/

theorem dropIdle_ne_nil {r : List RawText} (h : r ≠ []) : dropIdle r ≠ [] := by
  fun_induction dropIdle r with
  | case1 s t rest hs ih => exact ih (by simp)
  | case2 s t rest hs => simp
  | case3 r hr => exact h

theorem mem_of_mem_dropIdle {r : List RawText} {s : RawText} (h : s ∈ dropIdle r) : s ∈ r := by
  fun_induction dropIdle r with
  | case1 t u rest ht ih => exact List.mem_cons_of_mem _ (ih h)
  | case2 t u rest ht => exact h
  | case3 r hr => exact h

/-- The first segment stays, which is the last one in reverse order. -/
theorem getLast?_dropIdle (r : List RawText) : (dropIdle r).getLast? = r.getLast? := by
  fun_induction dropIdle r with
  | case1 s t rest hs ih => rw [ih, List.getLast?_cons_cons]
  | case2 s t rest hs => rfl
  | case3 r hr => rfl

theorem movesOf_dropIdle (r : List RawText) : movesOf (dropIdle r) = movesOf r := by
  fun_induction dropIdle r with
  | case1 s t rest hs ih => rw [ih, movesOf_idle hs]
  | case2 s t rest hs => rfl
  | case3 r hr => rfl

/-- A path that is not empty begins at the root exactly if its first segment is empty. -/
theorem isAbsolute_iff {p : DiskPath} (hp : p.raw ≠ "") :
    p.isAbsolute = true ↔ p.segments.head? = some (.ofText "") := by
  have hne : p.raw.bytes ≠ [] := by simpa using hp
  obtain ⟨c, cs, hc⟩ := List.exists_cons_of_ne_nil hne
  rw [isAbsolute, segments, hc]
  by_cases hslash : (c == slash) = true
  · rw [pieces_of_sep (p := (· == slash)) hslash]
    simpa [← RawText.bytes_inj] using hslash
  · obtain ⟨w, ws, hw⟩ := List.exists_cons_of_ne_nil (pieces_ne_nil (p := (· == slash)) cs)
    rw [pieces_of_not_sep (p := (· == slash)) hslash hw]
    simp only [List.head?_cons, List.map_cons, Option.some.injEq]
    constructor
    · intro h
      exact absurd h (by simpa using hslash)
    · intro h
      exact absurd h (by simp [← RawText.bytes_inj])

/-- The path of some segments in reverse order, unless it is empty. -/
theorem ofReversedSegments_spec {r : List RawText} (hne : r ≠ []) (h : ∀ s ∈ r, slash ∉ s.bytes) :
    (ofReversedSegments r).moves = (movesOf r).reverse ∧
      ((ofReversedSegments r).isAbsolute = true ↔ r.getLast? = some (.ofText "")) := by
  unfold ofReversedSegments
  split
  · next hroot =>
    rw [eq_of_beq hroot]
    exact ⟨rfl, by simp [isAbsolute]⟩
  · next hroot =>
    have hsegments : (⟨.joined r.reverse⟩ : DiskPath).segments = r.reverse :=
      segments_joined (by simpa using hne) (by simpa using h)
    refine ⟨by rw [moves, hsegments, movesOf_reverse], ?_⟩
    -- Only the single empty segment, which is excluded, would give the empty text.
    rw [isAbsolute_iff, hsegments, List.head?_reverse]
    intro htext
    have hempty : (⟨.joined r.reverse⟩ : DiskPath) = ⟨""⟩ := congrArg _ htext
    rw [hempty, segments_empty] at hsegments
    exact hroot (by simpa using congrArg List.reverse hsegments.symm)

/-- The segments of a path with a plain name at the end. -/
theorem segments_join_name {p : DiskPath} (hp : p.raw ≠ "") {name : RawText} (h : IsPlain name) :
    ∃ ss, ss ≠ [] ∧ (p.join ⟨name⟩).segments = ss ++ [name] ∧ ss.head? = p.segments.head? ∧
      movesOf ss = p.moves := by
  have hname := segments_of_no_slash h.2.2
  rcases segments_join hp h.relative with hj | ⟨ss, hss, hps, hj⟩
  · exact ⟨p.segments, segments_ne_nil p, by rw [hj, hname], rfl, rfl⟩
  · refine ⟨ss, hss, by rw [hj, hname], ?_, ?_⟩
    · rw [hps, List.head?_append_of_ne_nil _ hss]
    · rw [moves, hps, movesOf_append, movesOf_empty, List.append_nil]

/-- **The path above a plain name** has the moves of the path that the name was joined to. -/
theorem parent?_join_name (p : DiskPath) {name : RawText} (h : IsPlain name) :
    ∃ q, (p.join ⟨name⟩).parent? = some q ∧ q.moves = p.moves ∧ q.isAbsolute = p.isAbsolute := by
  by_cases hp : p.raw = ""
  · have hempty : p = ⟨""⟩ := by rw [← hp]
    refine ⟨⟨""⟩, ?_, by rw [hempty], by rw [hempty]⟩
    rw [join_empty hp, parent?, segments_of_no_slash h.2.2]
    have hne : (name == "") = false := by simpa using h.ne_empty
    simp [dropIdle, hne]
  · obtain ⟨ss, hss, hj, hhead, hmoves⟩ := segments_join_name hp h
    obtain ⟨last, init, hrev⟩ := List.exists_cons_of_ne_nil (l := ss.reverse) (by simpa using hss)
    have hslash : ∀ s ∈ dropIdle ss.reverse, slash ∉ s.bytes := by
      intro s hs
      apply no_slash_of_mem (p := p.join ⟨name⟩)
      rw [hj, List.mem_append]
      exact Or.inl (List.mem_reverse.1 (mem_of_mem_dropIdle hs))
    have hne : dropIdle ss.reverse ≠ [] := dropIdle_ne_nil (by simpa using hss)
    obtain ⟨hspec, habs⟩ := ofReversedSegments_spec hne hslash
    refine ⟨ofReversedSegments (dropIdle ss.reverse), ?_, ?_, ?_⟩
    · rw [parent?, hj, List.reverse_append, List.reverse_singleton, List.singleton_append, hrev,
        dropIdle, if_neg (by simp [h.1])]
    · rw [hspec, movesOf_dropIdle, movesOf_reverse, List.reverse_reverse, hmoves]
    · rw [Bool.eq_iff_iff, habs, getLast?_dropIdle, List.getLast?_reverse, hhead,
        isAbsolute_iff hp]

/-- The segments of a path from a base, where the path ends with a plain name. -/
theorem segments_join_join {base : DiskPath} (hbase : base.raw ≠ "") (p : DiskPath)
    {name : RawText} (h : IsPlain name) :
    ∃ ss, (base.join (p.join ⟨name⟩)).segments = ss ++ [name] ∧
      movesOf ss = (base.join p).moves := by
  by_cases hp : p.raw = ""
  · have hempty : p = ⟨""⟩ := by rw [← hp]
    obtain ⟨ss, -, hj, -, hmoves⟩ := segments_join_name hbase h
    exact ⟨ss, by rw [join_empty hp, hj], by
      rw [hmoves, hempty, moves_join rfl, moves_empty, List.append_nil]⟩
  obtain ⟨ss, -, hj, -, hmoves⟩ := segments_join_name hp h
  have habs := isAbsolute_join_name p h
  by_cases hroot : p.isAbsolute = true
  · rw [hroot] at habs
    exact ⟨ss, by rw [join_absolute habs, hj], by rw [hmoves, join_absolute hroot]⟩
  · rw [Bool.not_eq_true] at hroot
    rw [hroot] at habs
    rw [moves_join hroot, ← hmoves]
    rcases segments_join hbase habs with hb | ⟨bs, -, hbs, hb⟩
    · exact ⟨base.segments ++ ss, by rw [hb, hj, List.append_assoc], movesOf_append ..⟩
    · refine ⟨bs ++ ss, by rw [hb, hj, List.append_assoc], ?_⟩
      rw [movesOf_append, moves, hbs, movesOf_append, movesOf_empty, List.append_nil]

end Understudy.Files.DiskPath

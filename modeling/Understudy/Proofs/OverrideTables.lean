import Mathlib
import Understudy.Failure
import Understudy.Stub.Override

/-!
# Tables of overrides

A table is filled in three ways: an entry of the command line sets one body, pairs of a
configuration make a new table, and one table is taken over into another. A `Change` is one of
them. What a table holds is said by the pairs of a key and a body alone, whatever is in between
(`get?_insert`, `get?_extend`, `get?_insertPairs`).

> **The last body that is given for a key counts**, whatever the spellings of the key are; a change
> with a malformed key names the first one and changes nothing (`get?_run`).
-/

set_option autoImplicit false

namespace Understudy.Stub.OverrideTable

open Text OverrideKey

/-! ## What a table holds -/

theorem lookup_filter_ne {key k : OverrideKey} (h : k ≠ key)
    (entries : List (OverrideKey × String)) :
    (entries.filter fun e => e.1 != key).lookup k = entries.lookup k := by
  induction entries with
  | nil => rfl
  | cons e entries ih =>
    obtain ⟨key', body⟩ := e
    by_cases hk : k = key'
    · subst hk
      have hkeep : (k != key) = true := bne_iff_ne.2 h
      rw [List.filter_cons, if_pos hkeep, List.lookup_cons_self, List.lookup_cons_self]
    · have hmiss : (k == key') = false := beq_eq_false_iff_ne.2 hk
      rw [List.lookup_cons, hmiss, List.filter_cons]
      split
      · rw [List.lookup_cons, hmiss]
        exact ih
      · exact ih

theorem get?_empty (k : OverrideKey) : empty.get? k = none := rfl

/-- A body is set for its key and for no other one. -/
theorem get?_insert (t : OverrideTable) (key : OverrideKey) (body : String) (k : OverrideKey) :
    (t.insert key body).get? k = if k = key then some body else t.get? k := by
  unfold get? insert
  split
  · next h =>
    subst h
    exact List.lookup_cons_self
  · next h => rw [List.lookup_cons, beq_eq_false_iff_ne.2 h, lookup_filter_ne h]

/-- The entries of a table that is taken over win. -/
theorem get?_extend (t other : OverrideTable) (k : OverrideKey) :
    (t.extend other).get? k = (other.get? k).or (t.get? k) := by
  obtain ⟨entries⟩ := other
  induction entries with
  | nil => rfl
  | cons e entries ih =>
    obtain ⟨key, body⟩ := e
    show ((t.extend ⟨entries⟩).insert key body).get? k = _
    rw [get?_insert, ih]
    unfold get?
    rw [List.lookup_cons]
    by_cases h : k = key
    · rw [if_pos h, beq_iff_eq.2 h]
      rfl
    · rw [if_neg h, beq_eq_false_iff_ne.2 h]

/-! ## Pairs of a key and a body -/

/-- The body of the last pair for a key, in whatever spelling. -/
def lastBody? (k : OverrideKey) (pairs : List (String × String)) : Option String :=
  (pairs.reverse.find? fun p => parse? p.1 == some k).map Prod.snd

/-- The first key that is malformed. -/
def malformedKey? (pairs : List (String × String)) : Option String :=
  (pairs.map Prod.fst).find? fun spec => (parse? spec).isNone

theorem lastBody?_nil (k : OverrideKey) : lastBody? k [] = none := rfl

theorem lastBody?_append (k : OverrideKey) (ps qs : List (String × String)) :
    lastBody? k (ps ++ qs) = (lastBody? k qs).or (lastBody? k ps) := by
  unfold lastBody?
  rw [List.reverse_append, List.find?_append, Option.map_or]

theorem lastBody?_singleton {spec : String} {key : OverrideKey} (h : parse? spec = some key)
    (body : String) (k : OverrideKey) :
    lastBody? k [(spec, body)] = if k = key then some body else none := by
  unfold lastBody?
  by_cases hk : k = key
  · simp [h, hk]
  · simp [h, hk, Ne.symm hk]

theorem malformedKey?_cons (spec body : String) (pairs : List (String × String)) :
    malformedKey? ((spec, body) :: pairs) =
      if (parse? spec).isNone then some spec else malformedKey? pairs := by
  unfold malformedKey?
  rw [List.map_cons, List.find?_cons]
  cases (parse? spec).isNone <;> rfl

/-- Of the malformed keys of some pairs, the first one is given back. -/
theorem insertPairs_malformed {pairs : List (String × String)} {bad : String}
    (h : malformedKey? pairs = some bad) (t : OverrideTable) : t.insertPairs pairs = .error bad := by
  induction pairs generalizing t with
  | nil => cases h
  | cons p pairs ih =>
    obtain ⟨spec, body⟩ := p
    rw [malformedKey?_cons] at h
    rw [insertPairs]
    cases hspec : parse? spec with
    | none =>
      simp only [hspec, Option.isNone_none, if_true, Option.some.injEq] at h
      rw [h]
    | some key =>
      simp only [hspec, Option.isNone_some, Bool.false_eq_true, if_false] at h
      exact ih h (t.insert key body)

/-- **Pairs are added in order, so that the last one for a key counts**, if no key is malformed. -/
theorem get?_insertPairs {pairs : List (String × String)} (h : malformedKey? pairs = none)
    (t : OverrideTable) : ∃ t', t.insertPairs pairs = .ok t' ∧
      ∀ k, t'.get? k = (lastBody? k pairs).or (t.get? k) := by
  induction pairs generalizing t with
  | nil => exact ⟨t, rfl, fun k => by rw [lastBody?_nil, Option.none_or]⟩
  | cons p pairs ih =>
    obtain ⟨spec, body⟩ := p
    rw [malformedKey?_cons] at h
    rw [insertPairs]
    cases hspec : parse? spec with
    | none =>
      simp only [hspec, Option.isNone_none, if_true, reduceCtorEq] at h
    | some key =>
      simp only [hspec, Option.isNone_some, Bool.false_eq_true, if_false] at h
      obtain ⟨t', ht, hget⟩ := ih h (t.insert key body)
      refine ⟨t', ht, fun k => ?_⟩
      have hpair : (spec, body) :: pairs = [(spec, body)] ++ pairs := rfl
      rw [hget, get?_insert, hpair, lastBody?_append, lastBody?_singleton hspec, Option.or_assoc]
      split <;> rfl

theorem get?_ofPairs {pairs : List (String × String)} (h : malformedKey? pairs = none) :
    ∃ t, ofPairs pairs = .ok t ∧ ∀ k, t.get? k = lastBody? k pairs := by
  obtain ⟨t, ht, hget⟩ := get?_insertPairs h empty
  exact ⟨t, ht, fun k => by rw [hget, get?_empty, Option.or_none]⟩

theorem ofPairs_malformed {pairs : List (String × String)} {bad : String}
    (h : malformedKey? pairs = some bad) : ofPairs pairs = .error bad :=
  insertPairs_malformed h empty

/-! ## Changes -/

/-- A change of a table. -/
inductive Change where
  /-- The body in an entry of the command line is set. -/
  | entry (text : String)
  /-- The table is given up for one that is made of pairs. -/
  | replace (pairs : List (String × String))
  /-- A table that is made of pairs is taken over. -/
  | extend (pairs : List (String × String))
  deriving Repr, DecidableEq

namespace Change

/-- The table after a change. -/
def apply (t : OverrideTable) : Change → Except Failure OverrideTable
  | .entry text => do
    let (key, body) ← (parseEntry text).mapError .invalidOverrideKey
    return t.insert key body
  | .replace pairs => (ofPairs pairs).mapError .invalidOverrideKey
  | .extend pairs => do
    let other ← (ofPairs pairs).mapError .invalidOverrideKey
    return t.extend other

/-- The pairs of a change, in order. An entry is split at its first equals sign. -/
def pairs : Change → List (String × String)
  | .entry text =>
    match cut? ['='] text.toList with
    | some (spec, body) => [(String.ofList (trim spec), String.ofList body)]
    | none => []
  | .replace pairs | .extend pairs => pairs

/-- What is malformed in a change, if anything is: its first malformed key, or an entry without an
equals sign. -/
def malformed? : Change → Option String
  | .entry text =>
    match cut? ['='] text.toList with
    | some (spec, body) => malformedKey? [(String.ofList (trim spec), String.ofList body)]
    | none => some text
  | .replace pairs | .extend pairs => malformedKey? pairs

/-- Whether nothing of an earlier table is left. -/
def isReplacement : Change → Bool
  | .replace _ => true
  | .entry _ | .extend _ => false

end Change

/-- The table that is left by a change: the one before, if the change fails. -/
def step (t : OverrideTable) (change : Change) : OverrideTable :=
  match change.apply t with
  | .ok t' => t'
  | .error _ => t

/-- The table that is left by some changes, one after the other. -/
def run (t : OverrideTable) (changes : List Change) : OverrideTable := changes.foldl step t

/-- The changes from the last replacement on, or all of them. -/
def sinceReplacement : List Change → List Change
  | [] => []
  | change :: changes =>
    if changes.any Change.isReplacement then sinceReplacement changes else change :: changes

/-- The pairs of the changes that do not fail, from the last replacement among them on. -/
def appliedPairs (changes : List Change) : List (String × String) :=
  (sinceReplacement (changes.filter fun c => c.malformed?.isNone)).flatMap Change.pairs

/-! ### One change -/

theorem parseEntry_of_cut {text : String} {spec body : List Char}
    (h : cut? ['='] text.toList = some (spec, body)) : parseEntry text =
      match parse? (String.ofList (trim spec)) with
      | some key => .ok (key, String.ofList body)
      | none => .error (String.ofList (trim spec)) := by
  unfold parseEntry
  generalize cut? ['='] text.toList = cut at h
  subst h
  rfl

/-- What is malformed in a change is reported. -/
theorem Change.apply_malformed {change : Change} {spec : String}
    (h : change.malformed? = some spec) (t : OverrideTable) :
    change.apply t = .error (.invalidOverrideKey spec) := by
  -- An entry is malformed without an equals sign or with a malformed key, pairs with any such key.
  cases change with
  | entry text =>
    have hparse : parseEntry text = .error spec := by
      unfold malformed? at h
      cases hcut : cut? ['='] text.toList with
      | none =>
        simp only [hcut, Option.some.injEq] at h
        unfold parseEntry
        rw [hcut, h]
      | some parts =>
        obtain ⟨key, body⟩ := parts
        rw [parseEntry_of_cut hcut]
        simp only [hcut, malformedKey?_cons] at h
        cases hkey : parse? (String.ofList (trim key)) with
        | none =>
          simp only [hkey, Option.isNone_none, if_true, Option.some.injEq] at h
          rw [h]
        | some k =>
          rw [hkey] at h
          cases h
    simp only [apply, hparse]
    rfl
  | replace pairs =>
    simp only [apply, ofPairs_malformed h]
    rfl
  | extend pairs =>
    simp only [apply, ofPairs_malformed h]
    rfl

/-- **What a change does to a table**: its pairs come in front of what the table holds, if anything
of that is left. -/
theorem Change.get?_apply {change : Change} (h : change.malformed? = none) (t : OverrideTable) :
    ∃ t', change.apply t = .ok t' ∧ ∀ k, t'.get? k =
      (lastBody? k change.pairs).or (if change.isReplacement then none else t.get? k) := by
  cases change with
  | entry text =>
    unfold malformed? at h
    cases hcut : cut? ['='] text.toList with
    | none =>
      simp only [hcut, reduceCtorEq] at h
    | some parts =>
      obtain ⟨spec, body⟩ := parts
      simp only [hcut, malformedKey?_cons] at h
      cases hkey : parse? (String.ofList (trim spec)) with
      | none =>
        rw [hkey] at h
        cases h
      | some key =>
        have hparse : parseEntry text = .ok (key, String.ofList body) := by
          rw [parseEntry_of_cut hcut, hkey]
        refine ⟨t.insert key (String.ofList body), ?_, fun k => ?_⟩
        · simp only [apply, hparse]
          rfl
        · simp only [pairs, hcut, get?_insert, lastBody?_singleton hkey]
          split <;> rfl
  -- The other two changes read all their pairs first, and then differ in what they keep.
  | replace pairs =>
    obtain ⟨t', ht, hget⟩ := get?_ofPairs h
    refine ⟨t', ?_, fun k => ?_⟩
    · simp only [apply, ht]
      rfl
    · rw [hget]
      exact Option.or_none.symm
  | extend pairs =>
    obtain ⟨other, ht, hget⟩ := get?_ofPairs h
    refine ⟨t.extend other, ?_, fun k => ?_⟩
    · simp only [apply, ht]
      rfl
    · rw [get?_extend, hget]
      rfl

theorem step_malformed {change : Change} {spec : String} (h : change.malformed? = some spec)
    (t : OverrideTable) : t.step change = t := by
  unfold step
  rw [change.apply_malformed h]

theorem apply_step {change : Change} (h : change.malformed? = none) (t : OverrideTable) :
    change.apply t = .ok (t.step change) := by
  obtain ⟨t', ht, -⟩ := change.get?_apply h t
  unfold step
  rw [ht]

theorem get?_step {change : Change} (h : change.malformed? = none) (t : OverrideTable)
    (k : OverrideKey) : (t.step change).get? k =
      (lastBody? k change.pairs).or (if change.isReplacement then none else t.get? k) := by
  obtain ⟨t', ht, hget⟩ := change.get?_apply h t
  unfold step
  rw [ht]
  exact hget k

/-! ### Runs -/

theorem run_cons (t : OverrideTable) (change : Change) (changes : List Change) :
    t.run (change :: changes) = (t.step change).run changes := rfl

theorem run_concat (t : OverrideTable) (changes : List Change) (change : Change) :
    t.run (changes ++ [change]) = (t.run changes).step change :=
  List.foldl_concat step t change changes

/-- Changes that fail can be left out. -/
theorem run_filter (t : OverrideTable) (changes : List Change) :
    t.run (changes.filter fun c => c.malformed?.isNone) = t.run changes := by
  induction changes generalizing t with
  | nil => rfl
  | cons change changes ih =>
    rw [List.filter_cons, run_cons]
    cases hc : change.malformed? with
    | some spec =>
      rw [step_malformed hc]
      exact ih t
    | none => exact ih _

theorem sinceReplacement_of_none {changes : List Change}
    (h : changes.any Change.isReplacement = false) : sinceReplacement changes = changes := by
  cases changes with
  | nil => rfl
  | cons c cs =>
    rw [List.any_cons, Bool.or_eq_false_iff] at h
    unfold sinceReplacement
    rw [h.2]
    rfl

/-- **A run of changes none of which fails**: the pairs from the last replacement on come in front
of what the table held, if there is no replacement. -/
theorem get?_run_of_wellFormed {changes : List Change} (h : ∀ c ∈ changes, c.malformed? = none)
    (t : OverrideTable) (k : OverrideKey) : (t.run changes).get? k =
      (lastBody? k ((sinceReplacement changes).flatMap Change.pairs)).or
        (if changes.any Change.isReplacement then none else t.get? k) := by
  induction changes generalizing t with
  | nil => rfl
  | cons change changes ih =>
    obtain ⟨hchange, hrest⟩ := List.forall_mem_cons.1 h
    rw [run_cons, ih hrest, get?_step hchange, List.any_cons]
    cases hlater : changes.any Change.isReplacement with
    | true =>
      -- A replacement that comes later hides the change.
      have hhidden : sinceReplacement (change :: changes) = sinceReplacement changes := by
        rw [sinceReplacement, hlater, if_pos rfl]
      rw [hhidden, Bool.or_true, if_pos rfl, if_pos rfl]
    | false =>
      have hkept : sinceReplacement (change :: changes) = change :: changes := by
        rw [sinceReplacement, hlater]
        rfl
      rw [hkept, sinceReplacement_of_none hlater, Bool.or_false, List.flatMap_cons,
        lastBody?_append, Option.or_assoc]
      rfl

/-- **The last body that is given for a key counts.** After any changes of an empty table, the body
for a key is that of the last pair for it, in whatever spelling, among the pairs of the changes
that do not fail from the last replacement on. A change fails if and only if something in it is
malformed; then it names what comes first of that, and the table is the one before. -/
theorem get?_run (changes : List Change) :
    (∀ k, (empty.run changes).get? k = lastBody? k (appliedPairs changes)) ∧
    ∀ change : Change,
      match change.malformed? with
      | some spec => change.apply (empty.run changes) = .error (.invalidOverrideKey spec) ∧
          empty.run (changes ++ [change]) = empty.run changes
      | none => change.apply (empty.run changes) = .ok (empty.run (changes ++ [change])) := by
  refine ⟨fun k => ?_, fun change => ?_⟩
  · rw [← run_filter, get?_run_of_wellFormed]
    · rw [get?_empty, ite_self, Option.or_none]
      rfl
    · intro c hc
      exact Option.isNone_iff_eq_none.1 (List.mem_filter.1 hc).2
  · rw [run_concat]
    cases hc : change.malformed? with
    | some spec => exact ⟨change.apply_malformed hc _, step_malformed hc _⟩
    | none => exact apply_step hc _

/-- The second change has the key of the first one in another spelling; the third one has a
malformed key and sets nothing. -/
example : (empty.run [.extend [("p.T.M", "a")], .entry "p.(*T[K]).M=b",
    .extend [("p.(T).M", "c"), ("p.1", "d")]]).get? ⟨"p", some "T", "M"⟩ = some "b" := by
  decide +kernel

end Understudy.Stub.OverrideTable

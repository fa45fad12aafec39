import Mathlib

/-!
# Lists in order

Repetitions are taken out of a list and it is sorted, wherever the order of what a file or a package
declares is to make no difference. `inOrder` is this operation for any order.
-/

set_option autoImplicit false

namespace Understudy

section Repetitions

variable {α : Type} [BEq α] [LawfulBEq α]

theorem nodup_eraseDups (xs : List α) : xs.eraseDups.Nodup := by
  cases xs with
  | nil => simp
  | cons x xs =>
    rw [List.eraseDups_cons, List.nodup_cons]
    exact ⟨by simp, nodup_eraseDups _⟩
termination_by xs.length
decreasing_by
  exact Nat.lt_succ_of_le (List.length_filter_le _ _)

theorem eraseDups_of_nodup {xs : List α} (h : xs.Nodup) : xs.eraseDups = xs := by
  induction xs with
  | nil => rfl
  | cons x xs ih =>
    obtain ⟨hx, hxs⟩ := List.nodup_cons.1 h
    have hfilter : xs.filter (fun y => !y == x) = xs := by
      refine List.filter_eq_self.2 fun y hy => ?_
      have hne : y ≠ x := fun he => hx (he ▸ hy)
      simpa using hne
    rw [List.eraseDups_cons, hfilter, ih hxs]

end Repetitions

/-- The members of a list, each once and in order. -/
def inOrder {α : Type} [BEq α] (le : α → α → Bool) (xs : List α) : List α :=
  xs.eraseDups.mergeSort le

section InOrder

variable {α : Type} [BEq α] [LawfulBEq α] {le : α → α → Bool} {xs : List α}

theorem mem_inOrder {x : α} : x ∈ inOrder le xs ↔ x ∈ xs := by
  rw [inOrder, List.mem_mergeSort, List.mem_eraseDups]

theorem nodup_inOrder : (inOrder le xs).Nodup :=
  (List.mergeSort_perm _ _).nodup_iff.2 (nodup_eraseDups xs)

variable (htrans : ∀ a b c, le a b = true → le b c = true → le a c = true)
  (htotal : ∀ a b, (le a b || le b a) = true)
include htrans htotal

omit [LawfulBEq α] in
theorem sorted_inOrder : (inOrder le xs).Pairwise fun a b => le a b = true :=
  List.pairwise_mergeSort htrans htotal xs.eraseDups

/-- **A list that is in order stays as it is.** -/
theorem inOrder_inOrder : inOrder le (inOrder le xs) = inOrder le xs := by
  have hnodup : (inOrder le xs).Nodup := nodup_inOrder
  calc inOrder le (inOrder le xs)
    _ = (inOrder le xs).eraseDups.mergeSort le := rfl
    _ = (inOrder le xs).mergeSort le := by rw [eraseDups_of_nodup hnodup]
    _ = inOrder le xs := List.mergeSort_of_pairwise (sorted_inOrder htrans htotal)

/-- There is only one way to list the same members in order. -/
theorem eq_inOrder (hantisymm : ∀ a b, le a b = true → le b a = true → a = b) {ys : List α}
    (hsorted : ys.Pairwise fun a b => le a b = true) (hnodup : ys.Nodup)
    (hmem : ∀ a, a ∈ ys ↔ a ∈ xs) : ys = inOrder le xs := by
  have hperm : ys.Perm (inOrder le xs) :=
    (List.perm_ext_iff_of_nodup hnodup nodup_inOrder).2 fun a => (hmem a).trans mem_inOrder.symm
  exact hperm.eq_of_pairwise (fun a b _ _ => hantisymm a b) hsorted (sorted_inOrder htrans htotal)

end InOrder

end Understudy

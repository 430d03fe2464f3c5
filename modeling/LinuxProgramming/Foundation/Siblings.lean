import Mathlib.Data.List.Nodup
import Mathlib.Data.List.Range

/-! Families of a parent function, linked by first children and next siblings.

The nodes are the numbers below a bound, in this order. A family that is built
node by node has, after each of them, the links of the nodes so far.
-/

set_option autoImplicit false

namespace LinuxProgramming.Foundation

variable (parent : Nat → Option Nat)

/-- The children of a node among the first `count` nodes. -/
def kids (count p : Nat) : List Nat := (List.range count).filter fun i => parent i = some p

/-- The children behind a node in its family. -/
def younger (count i : Nat) : List Nat :=
  match parent i with
  | none => []
  | some p => (kids parent count p).filter (i < ·)

/-- The link from a node to its first child. -/
def firstChild (count p : Nat) : Option Nat := (kids parent count p).head?

/-- The link from a child to the one behind it. -/
def nextSibling (count i : Nat) : Option Nat := (younger parent count i).head?

variable {parent} {count i p : Nat}

@[simp] theorem mem_kids : i ∈ kids parent count p ↔ i < count ∧ parent i = some p := by
  simp [kids]

theorem kids_nodup : (kids parent count p).Nodup := List.nodup_range.filter _

theorem kids_sorted : (kids parent count p).Pairwise (· < ·) := List.pairwise_lt_range.filter _

theorem mem_younger {j : Nat} :
    j ∈ younger parent count i ↔ i < j ∧ ∃ p, parent i = some p ∧ j ∈ kids parent count p := by
  unfold younger
  cases parent i with
  | none => simp
  | some p => simp [and_comm]

/-- A family, cut at one of its children. -/
theorem younger_of_split {before after : List Nat}
    (split : kids parent count p = before ++ i :: after) : younger parent count i = after := by
  have member : i ∈ kids parent count p := by simp [split]
  have sorted : (before ++ i :: after).Pairwise (· < ·) := split ▸ kids_sorted
  obtain ⟨-, upper, across⟩ := List.pairwise_append.mp sorted
  -- The family is sorted, so the filter keeps exactly what stands behind i.
  have earlier : before.filter (i < ·) = [] := by
    apply List.filter_eq_nil_iff.mpr
    intro j inside
    have below := across j inside i List.mem_cons_self
    simpa using Nat.le_of_lt below
  have later : after.filter (i < ·) = after := by
    apply List.filter_eq_self.mpr
    intro j inside
    simpa using (List.pairwise_cons.mp upper).1 j inside
  rw [younger, (mem_kids.mp member).2]
  simp [split, earlier, later]

theorem split_of_younger {j : Nat} {rest : List Nat} (later : younger parent count i = j :: rest) :
    ∃ p before, kids parent count p = before ++ i :: j :: rest := by
  have member : j ∈ younger parent count i := by simp [later]
  obtain ⟨below, p, at_i, inside⟩ := mem_younger.mp member
  have kid : i ∈ kids parent count p := mem_kids.mpr ⟨Nat.lt_trans below (mem_kids.mp inside).1, at_i⟩
  obtain ⟨before, after, split⟩ := List.append_of_mem kid
  rw [younger_of_split split] at later
  exact ⟨p, before, later ▸ split⟩

/-- The children behind the next sibling are those behind it in the family. -/
theorem younger_next {j : Nat} {rest : List Nat} (later : younger parent count i = j :: rest) :
    younger parent count j = rest := by
  obtain ⟨p, before, split⟩ := split_of_younger later
  have shifted : kids parent count p = (before ++ [i]) ++ j :: rest := by simp [split]
  exact younger_of_split shifted

/-- Adding a node changes the family of its parent only, at the end. -/
theorem kids_succ : kids parent (count + 1) p =
    kids parent count p ++ if parent count = some p then [count] else [] := by
  rw [kids, List.range_succ, List.filter_append]
  split <;> simp_all [kids]

theorem younger_succ (i : Nat) : younger parent (count + 1) i =
    younger parent count i ++
      if i < count ∧ parent i ≠ none ∧ parent i = parent count then [count] else [] := by
  unfold younger
  cases at_i : parent i with
  | none => simp
  | some p =>
    simp only [kids_succ, List.filter_append, ne_eq, reduceCtorEq, not_false_eq_true, true_and]
    by_cases same : parent count = some p
    · by_cases below : i < count <;> simp [same, below]
    · have other : ¬some p = parent count := fun equal => same equal.symm
      simp [same, other]

/-- A node without a parent joins no family. -/
theorem links_orphan (orphan : parent count = none) :
    firstChild parent (count + 1) = firstChild parent count ∧
      nextSibling parent (count + 1) = nextSibling parent count := by
  constructor
  · funext p
    simp [firstChild, kids_succ, orphan]
  · funext i
    simp [nextSibling, younger_succ, orphan]

/-- The first child of a node becomes the link to its family. -/
theorem links_first (child : parent count = some p) (empty : kids parent count p = []) :
    firstChild parent (count + 1) = Function.update (firstChild parent count) p (some count) ∧
      nextSibling parent (count + 1) = nextSibling parent count := by
  constructor
  · funext q
    by_cases same : q = p
    · simp [firstChild, kids_succ, same, empty, child]
    · have other : ¬p = q := Ne.symm same
      simp [firstChild, kids_succ, same, child, other]
  · funext i
    -- A child of p below count would be in the empty family.
    have none_older : ¬(i < count ∧ parent i ≠ none ∧ parent i = parent count) := by
      rintro ⟨below, -, same⟩
      have member : i ∈ kids parent count p := mem_kids.mpr ⟨below, same.trans child⟩
      simp [empty] at member
    rw [nextSibling, younger_succ, if_neg none_older, List.append_nil, nextSibling]

/-- Every other child becomes the sibling of the last one before it. -/
theorem links_next (child : parent count = some p) {before : List Nat} {last : Nat}
    (family : kids parent count p = before ++ [last]) :
    firstChild parent (count + 1) = firstChild parent count ∧
      nextSibling parent (count + 1) =
        Function.update (nextSibling parent count) last (some count) := by
  have last_kid : last < count ∧ parent last = some p := mem_kids.mp (by simp [family])
  constructor
  · funext q
    by_cases same : p = q
    · have full : kids parent count q ≠ [] := by simp [← same, family]
      simp [firstChild, kids_succ, List.head?_append_of_ne_nil _ full]
    · simp [firstChild, kids_succ, child, same]
  · funext i
    by_cases at_last : i = last
    · subst at_last
      have youngest : younger parent count i = [] := younger_of_split family
      simp [nextSibling, younger_succ, youngest, last_kid, child]
    · rw [Function.update_of_ne at_last, nextSibling, younger_succ, nextSibling]
      split
      next joined =>
        -- Another child of p is followed by the last one already.
        have member : i ∈ kids parent count p := mem_kids.mpr ⟨joined.1, joined.2.2.trans child⟩
        have inside : i ∈ before := by simpa [family, at_last] using member
        obtain ⟨older, rest, rfl⟩ := List.append_of_mem inside
        have followed : younger parent count i = rest ++ [last] :=
          younger_of_split (by simpa using family)
        rw [followed, List.head?_append_of_ne_nil _ (by simp)]
      next => rw [List.append_nil]

end LinuxProgramming.Foundation

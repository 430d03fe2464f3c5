import Mathlib.Data.List.Basic

/-! `bsearch` of the C library, over a table in the order of the comparison.

The comparison is that of the key with an element. On an ordered table the
search finds an element exactly when a linear search does.
-/

set_option autoImplicit false

namespace LinuxProgramming.Foundation

variable {α : Type}

/-- Halve the interval from `low` to `high` until the probe compares equal. -/
def probe (compar : α → Ordering) (base : List α) : Nat → Nat → Nat → Option α
  | 0, _, _ => none
  | fuel + 1, low, high =>
    if low < high then
      let middle := (low + high) / 2
      match base[middle]? with
      | none => none
      | some element =>
        match compar element with
        | .lt => probe compar base fuel low middle
        | .gt => probe compar base fuel (middle + 1) high
        | .eq => some element
    else none

def bsearch (compar : α → Ordering) (base : List α) : Option α :=
  probe compar base base.length 0 base.length

/-- Elements in front of one that the key reaches are below the key. -/
def Ordered (compar : α → Ordering) (base : List α) : Prop :=
  base.Pairwise fun earlier later => compar later ≠ .lt → compar earlier = .gt

variable {compar : α → Ordering} {base : List α}

theorem probe_sound {fuel low high : Nat} {element : α}
    (found : probe compar base fuel low high = some element) :
    element ∈ base ∧ compar element = .eq := by
  induction fuel generalizing low high with
  | zero => cases found
  | succ fuel ih =>
    simp only [probe] at found
    split at found
    next =>
      split at found
      next => cases found
      next probed at_middle =>
        split at found
        next => exact ih found
        next => exact ih found
        next equal =>
          cases found
          exact ⟨List.mem_of_getElem? at_middle, equal⟩
    next => cases found

/-- The interval keeps every element that compares equal. -/
theorem probe_complete (ordered : Ordered compar base) {fuel low high index : Nat} {element : α}
    (at_index : base[index]? = some element) (equal : compar element = .eq)
    (above : low ≤ index) (below : index < high) (enough : high - low ≤ fuel)
    (inside : high ≤ base.length) : probe compar base fuel low high = some element := by
  induction fuel generalizing low high with
  | zero => omega
  | succ fuel ih =>
    have smaller : (low + high) / 2 < base.length := by omega
    obtain ⟨bound, same⟩ := List.getElem?_eq_some_iff.mp at_index
    have pairwise := List.pairwise_iff_getElem.mp ordered
    rw [probe, if_pos (by omega)]
    simp only [List.getElem?_eq_getElem smaller]
    -- The element is to the left of the probe, at it, or to the right; the order decides the comparison.
    rcases Nat.lt_trichotomy index ((low + high) / 2) with left | here | right
    · have later : compar base[(low + high) / 2] = .lt := by
        by_contra reached
        have past := pairwise index _ bound smaller left reached
        rw [same, equal] at past
        cases past
      simp only [later]
      exact ih above left (by omega) (by omega)
    · subst here
      simp only [same, equal]
    · have earlier : compar base[(low + high) / 2] = .gt := by
        apply pairwise _ index smaller bound right
        simp [same, equal]
      simp only [earlier]
      exact ih right below (by omega) inside

/-- The library's specification of `bsearch`, for an ordered table. -/
theorem bsearch_eq_find? (ordered : Ordered compar base) :
    bsearch compar base = base.find? fun element => compar element = .eq := by
  -- An element that the search returns compares equal, so a linear search would find one too.
  cases found : base.find? fun element => compar element = .eq with
  | none =>
    have none_equal := List.find?_eq_none.mp found
    cases probed : bsearch compar base with
    | none => rfl
    | some element =>
      obtain ⟨member, equal⟩ := probe_sound probed
      exact absurd (decide_eq_true equal) (none_equal element member)
  | some element =>
    have equal := List.find?_some found
    simp only [decide_eq_true_eq] at equal
    obtain ⟨index, bound, same⟩ := List.getElem_of_mem (List.mem_of_find?_eq_some found)
    have at_index : base[index]? = some element := by rw [List.getElem?_eq_getElem bound, same]
    exact probe_complete ordered at_index equal (Nat.zero_le _) bound (by omega) (Nat.le_refl _)

end LinuxProgramming.Foundation

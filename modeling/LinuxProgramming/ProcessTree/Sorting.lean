import LinuxProgramming.Foundation.Siblings
import LinuxProgramming.Foundation.Fuel

/-! Linking the list of processes to a tree.

The nodes are addressed by their place in the list that `tmpLink` makes of them,
with the added root in front. The list and the numbers in it never change; the
three pointers of the tree do. A loop that follows pointers gets fuel, and
ends without a result when it is used up.
-/

set_option autoImplicit false

namespace LinuxProgramming.ProcessTree
open Foundation

/-- What was read from the status file of a process. -/
structure Process where
  pid : Int
  ppid : Int
  command : String
  deriving DecidableEq, Repr

/-- The pointers of all nodes; NULL is `none`. -/
structure Heap where
  sibling : Nat → Option Nat
  child : Nat → Option Nat
  parent : Nat → Option Nat

/-- `createProcessNode` sets no parent, so that field is what `malloc` has returned. -/
def created (garbage : Nat → Option Nat) : Heap := ⟨fun _ => none, fun _ => none, garbage⟩

def newRoot : Process := ⟨0, -1, "test"⟩

/-- The walk to the end of a sibling list. -/
def lastSibling (heap : Heap) : Nat → Nat → Option Nat
  | 0, _ => none
  | fuel + 1, sibling =>
    match heap.sibling sibling with
    | none => some sibling
    | some next => lastSibling heap fuel next

/-- The body of the loop over all nodes: find the parent of `cur`, and add it there. -/
def place (nodes : List Process) (fuel : Nat) (heap : Heap) (cur : Nat) : Option Heap :=
  match nodes[cur]? with
  | none => none
  | some process =>
    match nodes.findIdx? fun find => find.pid = process.ppid with
    | none => some heap
    | some find =>
      -- The search ends at the first node with that pid (the `break`).
      let heap := { heap with parent := Function.update heap.parent cur (some find) }
      match heap.child find with
      | none => some { heap with child := Function.update heap.child find (some cur) }
      | some child =>
        match lastSibling heap fuel child with
        | none => none
        | some last => some { heap with sibling := Function.update heap.sibling last (some cur) }

def sortNode (fuel : Nat) (garbage : Nat → Option Nat) (processes : List Process) : Option Heap :=
  (List.range (newRoot :: processes).length).foldlM (place (newRoot :: processes) fuel)
    (created garbage)

/-- The first node of the list whose pid is the ppid of this one. -/
def parentIndex (nodes : List Process) (cur : Nat) : Option Nat :=
  nodes[cur]?.bind fun process => nodes.findIdx? fun find => find.pid = process.ppid

/-- The links after the first `count` nodes have been placed. -/
def linked (nodes : List Process) (garbage : Nat → Option Nat) (count : Nat) : Heap where
  sibling := nextSibling (parentIndex nodes) count
  child := firstChild (parentIndex nodes) count
  parent cur := if cur < count then (parentIndex nodes cur).or (garbage cur) else garbage cur

theorem linked_zero (nodes : List Process) (garbage : Nat → Option Nat) :
    linked nodes garbage 0 = created garbage := by
  have nothing : ∀ p, kids (parentIndex nodes) 0 p = [] := fun _ => rfl
  simp only [linked, created, Heap.mk.injEq]
  refine ⟨?_, ?_, ?_⟩
  · funext i
    unfold nextSibling younger
    split <;> simp [nothing]
  · funext p
    simp [firstChild, nothing]
  · funext i
    simp

/-- The walk along a family ends at its last child. -/
theorem lastSibling_family {parent : Nat → Option Nat} {count p i : Nat} {before after : List Nat}
    (family : kids parent count p = before ++ i :: after) (heap : Heap)
    (links : heap.sibling = nextSibling parent count) {fuel : Nat} (enough : after.length < fuel) :
    lastSibling heap fuel i = (i :: after).getLast? := by
  induction after generalizing before i fuel with
  | nil =>
    obtain ⟨fuel, rfl⟩ := Nat.exists_eq_succ_of_ne_zero (Nat.ne_of_gt enough)
    simp [lastSibling, links, nextSibling, younger_of_split family]
  | cons next after ih =>
    obtain ⟨fuel, rfl⟩ := Nat.exists_eq_succ_of_ne_zero (Nat.ne_zero_of_lt enough)
    have rest : kids parent count p = (before ++ [i]) ++ next :: after := by simp [family]
    have followed := ih rest (Nat.lt_of_succ_lt_succ enough)
    simpa [lastSibling, links, nextSibling, younger_of_split family] using followed

theorem linked_parent (nodes : List Process) (garbage : Nat → Option Nat) {count p : Nat}
    (found : parentIndex nodes count = some p) :
    Function.update (linked nodes garbage count).parent count (some p) =
      (linked nodes garbage (count + 1)).parent := by
  funext cur
  by_cases same : cur = count
  · simp [linked, same, found]
  · have below : cur < count ↔ cur < count + 1 := by omega
    simp [linked, same, below]

/-- Placing one node gives the links of one node more. -/
theorem place_linked {nodes : List Process} {garbage : Nat → Option Nat} {count fuel : Nat}
    (inside : count < nodes.length) (enough : nodes.length ≤ fuel) :
    place nodes fuel (linked nodes garbage count) count = some (linked nodes garbage (count + 1)) := by
  have here : nodes[count]? = some nodes[count] := List.getElem?_eq_getElem inside
  have searched : parentIndex nodes count =
      nodes.findIdx? fun find => find.pid = nodes[count].ppid := by
    simp [parentIndex, here]
  simp only [place, here, ← searched]
  cases found : parentIndex nodes count with
  | none =>
    obtain ⟨children, siblings⟩ := links_orphan found
    have parents : (linked nodes garbage (count + 1)).parent = (linked nodes garbage count).parent := by
      funext cur
      rcases Nat.lt_trichotomy cur count with below | same | above
      · simp only [linked, if_pos below, if_pos (Nat.lt_succ_of_lt below)]
      · simp [linked, same, found]
      · have outside : ¬cur < count + 1 := by omega
        simp only [linked, if_neg outside, if_neg (Nat.not_lt_of_lt above)]
    have same : linked nodes garbage (count + 1) = linked nodes garbage count := by
      simp only [linked, Heap.mk.injEq]
      exact ⟨siblings, children, parents⟩
    rw [same]
  | some find =>
    simp only [linked_parent nodes garbage found]
    cases family : kids (parentIndex nodes) count find with
    | nil =>
      obtain ⟨children, siblings⟩ := links_first found family
      have no_child : (linked nodes garbage count).child find = none := by
        simp [linked, firstChild, family]
      simp only [no_child, Option.some.injEq]
      rw [linked, linked, Heap.mk.injEq]
      exact ⟨siblings.symm, children.symm, rfl⟩
    | cons child rest =>
      have first : (linked nodes garbage count).child find = some child := by
        simp [linked, firstChild, family]
      have short : rest.length < fuel := by
        have sizes : (kids (parentIndex nodes) count find).length ≤ (List.range count).length :=
          List.length_filter_le _ _
        rw [family, List.length_cons, List.length_range] at sizes
        omega
      obtain ⟨last, ends⟩ : ∃ last, (child :: rest).getLast? = some last :=
        Option.isSome_iff_exists.mp (by simp)
      obtain ⟨before, parts⟩ := List.getLast?_eq_some_iff.mp ends
      obtain ⟨children, siblings⟩ := links_next found (family.trans parts)
      have whole : kids (parentIndex nodes) count find = [] ++ child :: rest := family
      have walked := lastSibling_family whole { linked nodes garbage count with
        parent := (linked nodes garbage (count + 1)).parent } rfl short
      simp only [first, walked, ends, Option.some.injEq]
      rw [linked, linked, Heap.mk.injEq]
      exact ⟨siblings.symm, children.symm, rfl⟩

/-- `sortNode` terminates for every list, and links every node to the first one
that has its ppid. -/
theorem sortNode_linked {fuel : Nat} (garbage : Nat → Option Nat) {processes : List Process}
    (enough : processes.length < fuel) :
    sortNode fuel garbage processes =
      some (linked (newRoot :: processes) garbage (processes.length + 1)) := by
  -- The induction is on how many nodes the outer loop has placed.
  have placed : ∀ count ≤ (newRoot :: processes).length,
      (List.range count).foldlM (place (newRoot :: processes) fuel) (created garbage) =
        some (linked (newRoot :: processes) garbage count) := by
    intro count
    induction count with
    | zero => intro _; rw [linked_zero]; rfl
    | succ count ih =>
      intro inside
      rw [List.range_succ, List.foldlM_append, ih (Nat.le_of_succ_le inside)]
      simp [place_linked inside enough]
  exact placed _ (Nat.le_refl _)

end LinuxProgramming.ProcessTree

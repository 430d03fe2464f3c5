import LinuxProgramming.ProcessTree.Sorting

/-! Printing the tree of processes.

The walk goes down along first children only. On each level it prints the
family of the node it has come to, and then those of the parent's later
siblings, up to the first of these without a child; it does the latter only if
the first family has a second child.
-/

set_option autoImplicit false

namespace LinuxProgramming.ProcessTree
open Foundation

/-- A printed line: the number of indentation steps, and the process. -/
structure Line where
  count : Nat
  process : Process
  deriving DecidableEq, Repr

/-- The inner loop: along a sibling list, and on through the parent's siblings. -/
def printSiblings (nodes : List Process) (heap : Heap) (count : Nat) :
    Nat → Option Nat → Option (List Line)
  | 0, _ => none
  | _ + 1, none => some []
  | fuel + 1, some sibs =>
    match nodes[sibs]? with
    | none => none
    | some process =>
      match heap.sibling sibs with
      | some next => (printSiblings nodes heap count fuel (some next)).map (⟨count, process⟩ :: ·)
      | none =>
        -- A NULL parent would be dereferenced here.
        match heap.parent sibs with
        | none => none
        | some cur_layer =>
          match heap.sibling cur_layer with
          | none => some [⟨count, process⟩]
          | some uncle =>
            -- `continue`: an uncle without a child ends the loop, whatever its siblings have.
            (printSiblings nodes heap count fuel (heap.child uncle)).map (⟨count, process⟩ :: ·)

/-- The outer loop: the line of the node itself is not indented. -/
def printLayers (nodes : List Process) (heap : Heap) : Nat → Nat → Option Nat → Option (List Line)
  | 0, _, _ => none
  | _ + 1, _, none => some []
  | fuel + 1, count, some cur_layer =>
    match nodes[cur_layer]? with
    | none => none
    | some process =>
      (printSiblings nodes heap count fuel (heap.sibling cur_layer)).bind fun siblings =>
        (printLayers nodes heap fuel (count + 1) (heap.child cur_layer)).map fun rest =>
          ⟨0, process⟩ :: siblings ++ rest

def printProcessTree (nodes : List Process) (heap : Heap) (fuel node : Nat) : Option (List Line) :=
  printLayers nodes heap fuel 0 (some node)

/-- `main`, for the processes in the order in which they were read: the root that
is printed is the first of them, which comes right behind the added one. -/
def main (garbage : Nat → Option Nat) (processes : List Process) (fuel : Nat) :
    Option (List Line) :=
  (sortNode fuel garbage processes).bind fun heap =>
    if processes = [] then some [] else printProcessTree (newRoot :: processes) heap fuel 1

section Layers

variable (parent : Nat → Option Nat) (total : Nat)

/-- The later siblings of a node, up to the first one without a child. -/
def uncles (p : Nat) : List Nat :=
  (younger parent total p).takeWhile fun q => kids parent total q ≠ []

/-- What is printed when the walk has come to the first child of a node. -/
def layer (p : Nat) : List Nat :=
  kids parent total p ++
    if 2 ≤ (kids parent total p).length then (uncles parent total p).flatMap (kids parent total)
    else []

/-- The layers down the line of first children. -/
def walk : Nat → Nat → List Nat
  | 0, _ => []
  | depth + 1, p =>
    match firstChild parent total p with
    | none => []
    | some c => layer parent total p ++ walk depth c

end Layers

section Runs

variable {nodes : List Process} {garbage : Nat → Option Nat}

/-- The links of all nodes. -/
abbrev tree (nodes : List Process) (garbage : Nat → Option Nat) : Heap :=
  linked nodes garbage nodes.length

/-- The lines of some nodes. -/
def linesOf (nodes : List Process) (count : Nat) (addresses : List Nat) : List Line :=
  addresses.filterMap fun i => nodes[i]?.map (Line.mk count)

@[simp] theorem linesOf_nil (count : Nat) : linesOf nodes count [] = [] := rfl

theorem linesOf_cons {i : Nat} {process : Process} (here : nodes[i]? = some process) (count : Nat)
    (rest : List Nat) :
    linesOf nodes count (i :: rest) = ⟨count, process⟩ :: linesOf nodes count rest := by
  simp [linesOf, here]

theorem linesOf_append (count : Nat) (first second : List Nat) :
    linesOf nodes count (first ++ second) = linesOf nodes count first ++ linesOf nodes count second :=
  List.filterMap_append

theorem process_of_kid {p i : Nat} (kid : i ∈ kids (parentIndex nodes) nodes.length p) :
    ∃ process, nodes[i]? = some process :=
  ⟨_, List.getElem?_eq_getElem (mem_kids.mp kid).1⟩

theorem parent_of_kid {p i : Nat} (kid : i ∈ kids (parentIndex nodes) nodes.length p) :
    (tree nodes garbage).parent i = some p := by
  obtain ⟨below, child⟩ := mem_kids.mp kid
  simp [linked, below, child]

theorem printSiblings_none (heap : Heap) (count : Nat) :
    Yields (fun fuel => printSiblings nodes heap count fuel none) [] :=
  (Yields.const []).step fun _ => rfl

/-- Along a family: whatever is printed from its last node on follows the others. -/
theorem printSiblings_along (count : Nat) {p i : Nat} {before after : List Nat} {tail : List Line}
    (family : kids (parentIndex nodes) nodes.length p = before ++ i :: after)
    (at_end : ∀ last process, nodes[last]? = some process → (tree nodes garbage).sibling last = none →
      (tree nodes garbage).parent last = some p →
      Yields (fun fuel => printSiblings nodes (tree nodes garbage) count fuel (some last))
        (⟨count, process⟩ :: tail)) :
    Yields (fun fuel => printSiblings nodes (tree nodes garbage) count fuel (some i))
      (linesOf nodes count (i :: after) ++ tail) := by
  have kid : i ∈ kids (parentIndex nodes) nodes.length p := by simp [family]
  obtain ⟨process, here⟩ := process_of_kid kid
  rw [linesOf_cons here]
  induction after generalizing before i process with
  | nil =>
    have youngest : (tree nodes garbage).sibling i = none := by
      simp [linked, nextSibling, younger_of_split family]
    exact at_end i process here youngest (parent_of_kid kid)
  | cons next after ih =>
    have followed : (tree nodes garbage).sibling i = some next := by
      simp [linked, nextSibling, younger_of_split family]
    have shifted : kids (parentIndex nodes) nodes.length p = (before ++ [i]) ++ next :: after := by
      simp [family]
    have next_kid : next ∈ kids (parentIndex nodes) nodes.length p := by simp [family]
    obtain ⟨next_process, there⟩ := process_of_kid next_kid
    rw [linesOf_cons there]
    apply ((ih shifted next_kid next_process there).map (⟨count, process⟩ :: ·)).step
    intro fuel
    simp only [printSiblings, here, followed]

/-- The inner loop prints the rest of a family and the families of the uncles;
the induction is on the siblings of the parent. -/
theorem printSiblings_family (garbage : Nat → Option Nat) (count : Nat) {p i : Nat} {before after : List Nat}
    (family : kids (parentIndex nodes) nodes.length p = before ++ i :: after) :
    Yields (fun fuel => printSiblings nodes (tree nodes garbage) count fuel (some i))
      (linesOf nodes count (i :: after) ++ linesOf nodes count
        ((uncles (parentIndex nodes) nodes.length p).flatMap
          (kids (parentIndex nodes) nodes.length))) := by
  apply printSiblings_along count family
  intro last process here youngest child
  unfold uncles
  -- The loop moves from uncle to uncle, so the induction is on the siblings behind p.
  generalize later : younger (parentIndex nodes) nodes.length p = relatives
  induction relatives generalizing p i before after last process with
  | nil =>
    have alone : (tree nodes garbage).sibling p = none := by simp [linked, nextSibling, later]
    have single : Yields (fun fuel => printSiblings nodes (tree nodes garbage) count fuel (some last))
        [⟨count, process⟩] := by
      apply (Yields.const _).step
      intro fuel
      simp only [printSiblings, here, youngest, child, alone]
    exact single
  | cons uncle relatives ih =>
    have aside : (tree nodes garbage).sibling p = some uncle := by simp [linked, nextSibling, later]
    have unfolds : ∀ fuel, printSiblings nodes (tree nodes garbage) count (fuel + 1) (some last) =
        (printSiblings nodes (tree nodes garbage) count fuel ((tree nodes garbage).child uncle)).map
          (⟨count, process⟩ :: ·) := by
      intro fuel
      simp only [printSiblings, here, youngest, child, aside]
    cases cousins : kids (parentIndex nodes) nodes.length uncle with
    | nil =>
      have childless : (tree nodes garbage).child uncle = none := by
        simp [linked, firstChild, cousins]
      rw [List.takeWhile_cons_of_neg (by simp [cousins]), List.flatMap_nil, linesOf_nil]
      rw [childless] at unfolds
      exact ((printSiblings_none _ count).map _).step unfolds
    | cons first rest =>
      have down : (tree nodes garbage).child uncle = some first := by
        simp [linked, firstChild, cousins]
      have whole : kids (parentIndex nodes) nodes.length uncle = [] ++ first :: rest := cousins
      rw [List.takeWhile_cons_of_pos (by simp [cousins]), List.flatMap_cons, linesOf_append, cousins]
      rw [down] at unfolds
      refine Yields.step (Yields.map ?_ _) unfolds
      apply printSiblings_along count whole
      intro last process here youngest child
      exact ih whole last process here youngest child (younger_next later)

/-- Nodes at their distance from the added root. -/
inductive Level (parent : Nat → Option Nat) : Nat → Nat → Prop where
  | root : Level parent 0 0
  | child {depth p i : Nat} : Level parent depth p → parent i = some p → Level parent (depth + 1) i

theorem Level.unique {parent : Nat → Option Nat} (top : parent 0 = none) {depth other i : Nat}
    (one : Level parent depth i) (another : Level parent other i) : depth = other := by
  induction one generalizing other with
  | root =>
    cases another with
    | root => rfl
    | child _ found => simp [top] at found
  | child _ found ih =>
    cases another with
    | root => simp [top] at found
    | child upper same =>
      cases found.symm.trans same
      rw [ih upper]

/-- The rest of a layer, behind the first child. -/
theorem printSiblings_layer (garbage : Nat → Option Nat) (count : Nat) {p first : Nat} {rest : List Nat}
    (family : kids (parentIndex nodes) nodes.length p = first :: rest) :
    ∃ others, layer (parentIndex nodes) nodes.length p = first :: others ∧
      Yields (fun fuel => printSiblings nodes (tree nodes garbage) count fuel
        ((tree nodes garbage).sibling first)) (linesOf nodes count others) := by
  have whole : kids (parentIndex nodes) nodes.length p = [] ++ first :: rest := family
  cases rest with
  | nil =>
    have alone : (tree nodes garbage).sibling first = none := by
      simp [linked, nextSibling, younger_of_split whole]
    refine ⟨[], by simp [layer, family], ?_⟩
    rw [alone]
    exact printSiblings_none _ count
  | cons next rest =>
    have followed : (tree nodes garbage).sibling first = some next := by
      simp [linked, nextSibling, younger_of_split whole]
    have shifted : kids (parentIndex nodes) nodes.length p = [first] ++ next :: rest := family
    have printed := printSiblings_family garbage count shifted
    rw [← linesOf_append, ← followed] at printed
    exact ⟨_, by simp [layer, family], printed⟩

/-- The outer loop prints the layers down the line of first children, if that ends. -/
theorem printLayers_walk (garbage : Nat → Option Nat) {bound : Nat}
    (bounded : ∀ depth i, Level (parentIndex nodes) depth i → depth ≤ bound)
    {depth level p : Nat} (here : Level (parentIndex nodes) level p)
    (enough : bound < level + depth) (count : Nat) :
    ∃ lines, Yields (fun fuel => printLayers nodes (tree nodes garbage) fuel count
        (firstChild (parentIndex nodes) nodes.length p)) lines ∧
      lines.map Line.process =
        (walk (parentIndex nodes) nodes.length depth p).filterMap (nodes[·]?) := by
  induction depth generalizing level p count with
  | zero =>
    have := bounded level p here
    omega
  | succ depth ih =>
    cases family : kids (parentIndex nodes) nodes.length p with
    | nil =>
      have childless : firstChild (parentIndex nodes) nodes.length p = none := by
        simp [firstChild, family]
      refine ⟨[], ?_, by simp [walk, childless]⟩
      rw [childless]
      exact (Yields.const []).step fun _ => rfl
    | cons first rest =>
      have down : firstChild (parentIndex nodes) nodes.length p = some first := by
        simp [firstChild, family]
      have kid : first ∈ kids (parentIndex nodes) nodes.length p := by simp [family]
      obtain ⟨process, found⟩ := process_of_kid kid
      obtain ⟨others, parts, siblings⟩ := printSiblings_layer garbage count family
      obtain ⟨lines, deeper, printed⟩ := ih (here.child (mem_kids.mp kid).2) (by omega) (count + 1)
      refine ⟨⟨0, process⟩ :: linesOf nodes count others ++ lines, ?_, ?_⟩
      -- Both loops run on the same fuel.
      · have combined : Yields (fun fuel =>
            (printSiblings nodes (tree nodes garbage) count fuel
              ((tree nodes garbage).sibling first)).bind fun siblings =>
                (printLayers nodes (tree nodes garbage) fuel (count + 1)
                  ((tree nodes garbage).child first)).map fun rest =>
                    Line.mk 0 process :: siblings ++ rest)
            (⟨0, process⟩ :: linesOf nodes count others ++ lines) :=
          siblings.bind (deeper.map _)
        rw [down]
        exact combined.step fun fuel => by simp only [printLayers, found]
      · have same : (linesOf nodes count others).map Line.process =
            others.filterMap (nodes[·]?) := by
          simp [linesOf, List.map_filterMap, Option.map_map, Function.comp_def]
        simp [walk, down, parts, found, same, printed]

end Runs

end LinuxProgramming.ProcessTree

import LinuxProgramming.ProcessTree.Sorting

/-! The tree in memory.

`sortNode` here reads and writes nodes at addresses, as the source does: every
loop follows `tmpLink` or `sibling` pointers that it loads again in each round. It is
shown to do to the memory what the version over places in the list does.
-/

set_option autoImplicit false

namespace LinuxProgramming.ProcessTree.Pointers
open Foundation

abbrev Address : Type := Nat

structure ProcessNode where
  pid : Int
  ppid : Int
  command : String
  sibling : Option Address
  child : Option Address
  parent : Option Address
  tmpLink : Option Address
  deriving DecidableEq

/-- The node at each address where one was allocated. -/
abbrev Memory : Type := Address → Option ProcessNode

/-- An assignment to a field of the node at an address. -/
def store (memory : Memory) (address : Address) (assign : ProcessNode → ProcessNode) :
    Option Memory :=
  (memory address).map fun node => Function.update memory address (some (assign node))

/-- The new node; its parent is not set, so it is what `malloc` has left there. -/
def createProcessNode (garbage : Option Address) (pid ppid : Int) (command : String) :
    ProcessNode :=
  ⟨pid, ppid, command, none, none, garbage, none⟩

/-- The `while` loop to the end of a sibling chain. -/
def walk (memory : Memory) : Nat → Address → Option Address
  | 0, _ => none
  | fuel + 1, sibling => do
    let node ← memory sibling
    match node.sibling with
    | none => some sibling
    | some next => walk memory fuel next

/-- The node `find` is the parent of `cur`. -/
def adopt (cur find : Address) (fuel : Nat) (memory : Memory) : Option Memory := do
  let memory ← store memory cur fun node => { node with parent := some find }
  let found ← memory find
  match found.child with
  | none => store memory find fun node => { node with child := some cur }
  | some child =>
    let sibling ← walk memory fuel child
    store memory sibling fun node => { node with sibling := some cur }

/-- The inner loop; it ends at the first node with the pid (the `break`). -/
def search (cur : Address) (tmp_ppid : Int) (memory : Memory) : Nat → Option Address → Option Memory
  | 0, _ => none
  | _ + 1, none => some memory
  | fuel + 1, some find => do
    let found ← memory find
    if found.pid = tmp_ppid then adopt cur find fuel memory
    else search cur tmp_ppid memory fuel found.tmpLink

/-- The loop over all nodes. -/
def traverse (root : Address) : Nat → Memory → Option Address → Option Memory
  | 0, _, _ => none
  | _ + 1, memory, none => some memory
  | fuel + 1, memory, some cur => do
    let node ← memory cur
    let memory ← search cur node.ppid memory fuel (some root)
    let node ← memory cur
    traverse root fuel memory node.tmpLink

/-- `fresh` is the address that `malloc` returns for the added root. -/
def sortNode (fresh : Address) (garbage : Option Address) (memory : Memory) (root : Option Address)
    (fuel : Nat) : Option Memory :=
  let memory := Function.update memory fresh
    (some { createProcessNode garbage 0 (-1) "test" with tmpLink := root })
  traverse fresh fuel memory (some fresh)

def ProcessNode.process (node : ProcessNode) : Process := ⟨node.pid, node.ppid, node.command⟩

section Layout

variable (address : Nat → Address) (nodes : List Process)

/-- The pointer to the node at a place of the list; NULL behind its end. -/
def pointer (place : Nat) : Option Address :=
  if place < nodes.length then some (address place) else none

/-- What the node at a place holds, when these are the links. A parent that was not
set can be anything. -/
structure Cell (heap : Heap) (place : Nat) (node : ProcessNode) : Prop where
  process : nodes[place]? = some node.process
  sibling : node.sibling = (heap.sibling place).map address
  child : node.child = (heap.child place).map address
  parent : ∀ p, heap.parent place = some p → node.parent = some (address p)
  tmpLink : node.tmpLink = pointer address nodes (place + 1)

/-- The memory holds the nodes at their addresses, with these links. -/
structure Layout (memory : Memory) (heap : Heap) : Prop where
  cell : ∀ place < nodes.length, ∃ node,
    memory (address place) = some node ∧ Cell address nodes heap place node
  siblings : ∀ place next, heap.sibling place = some next → next < nodes.length
  children : ∀ place first, heap.child place = some first → first < nodes.length

/-- Two places never share an address. -/
def Apart : Prop :=
  ∀ i < nodes.length, ∀ j < nodes.length, address i = address j → i = j

/-- Only nodes of the list were written. -/
def Frame (before after : Memory) : Prop :=
  ∀ other, (∀ place < nodes.length, other ≠ address place) → after other = before other

variable {address nodes} {memory : Memory} {heap : Heap}

theorem Frame.trans {first second third : Memory} (one : Frame address nodes first second)
    (two : Frame address nodes second third) : Frame address nodes first third :=
  fun other outside => (two other outside).trans (one other outside)

/-- An assignment to one node changes the links at its place. -/
theorem Layout.store (layout : Layout address nodes memory heap) (apart : Apart address nodes)
    {place : Nat} (inside : place < nodes.length) {assign : ProcessNode → ProcessNode} {next : Heap}
    (here : ∀ node, Cell address nodes heap place node → Cell address nodes next place (assign node))
    (others : ∀ node, ∀ other ≠ place, Cell address nodes heap other node →
      Cell address nodes next other node)
    (siblings : ∀ place sibling, next.sibling place = some sibling → sibling < nodes.length)
    (children : ∀ place first, next.child place = some first → first < nodes.length) :
    ∃ stored, Pointers.store memory (address place) assign = some stored ∧
      Layout address nodes stored next ∧ Frame address nodes memory stored := by
  obtain ⟨node, held, cell⟩ := layout.cell place inside
  refine ⟨_, by rw [Pointers.store, held, Option.map_some], ⟨?_, siblings, children⟩, ?_⟩
  · intro other bound
    by_cases same : other = place
    · subst same
      exact ⟨assign node, Function.update_self .., here node cell⟩
    · obtain ⟨kept, at_other, unchanged⟩ := layout.cell other bound
      have elsewhere : address other ≠ address place := fun equal =>
        same (apart other bound place inside equal)
      exact ⟨kept, by rw [Function.update_of_ne elsewhere, at_other], others kept other same unchanged⟩
  · intro other outside
    exact Function.update_of_ne (outside place inside) ..

/-- The walk in memory ends at the address where the walk over places ends. -/
theorem Layout.walk (layout : Layout address nodes memory heap) {fuel place last : Nat}
    (inside : place < nodes.length) (walked : lastSibling heap fuel place = some last) :
    last < nodes.length ∧
      Yields (fun fuel => Pointers.walk memory fuel (address place)) (address last) := by
  induction fuel generalizing place with
  | zero => cases walked
  | succ fuel ih =>
    obtain ⟨node, held, cell⟩ := layout.cell place inside
    rw [lastSibling] at walked
    cases link : heap.sibling place with
    | none =>
      simp only [link, Option.some.injEq] at walked
      subst walked
      refine ⟨inside, (Yields.const _).step fun fuel => ?_⟩
      simp [Pointers.walk, held, cell.sibling, link]
    | some next =>
      simp only [link] at walked
      obtain ⟨bound, yields⟩ := ih (layout.siblings place next link) walked
      refine ⟨bound, yields.step fun fuel => ?_⟩
      simp [Pointers.walk, held, cell.sibling, link]

theorem Layout.set_parent (layout : Layout address nodes memory heap) (apart : Apart address nodes)
    {cur : Nat} (inside : cur < nodes.length) (find : Nat) :
    ∃ stored, Pointers.store memory (address cur)
        (fun node => { node with parent := some (address find) }) = some stored ∧
      Layout address nodes stored
        { heap with parent := Function.update heap.parent cur (some find) } ∧
      Frame address nodes memory stored := by
  refine layout.store apart inside ?_ ?_ layout.siblings layout.children
  · intro node cell
    refine { cell with parent := fun p at_p => ?_ }
    simp only [Function.update_self, Option.some.injEq] at at_p
    rw [at_p]
  · intro node other elsewhere cell
    refine { cell with parent := fun p at_p => cell.parent p ?_ }
    simpa only [Function.update_of_ne elsewhere] using at_p

theorem update_within {link : Nat → Option Nat} {bound source target : Nat}
    (within : ∀ i j, link i = some j → j < bound) (inside : target < bound) :
    ∀ i j, Function.update link source (some target) i = some j → j < bound := by
  intro i j linked
  by_cases same : i = source
  · subst same
    rw [Function.update_self, Option.some.injEq] at linked
    exact linked ▸ inside
  · rw [Function.update_of_ne same] at linked
    exact within i j linked

theorem Layout.set_child (layout : Layout address nodes memory heap) (apart : Apart address nodes)
    {find cur : Nat} (inside : find < nodes.length) (bound : cur < nodes.length) :
    ∃ stored, Pointers.store memory (address find)
        (fun node => { node with child := some (address cur) }) = some stored ∧
      Layout address nodes stored
        { heap with child := Function.update heap.child find (some cur) } ∧
      Frame address nodes memory stored := by
  refine layout.store apart inside ?_ ?_ layout.siblings (update_within layout.children bound)
  · intro node cell
    exact { cell with child := by simp }
  · intro node other elsewhere cell
    exact { cell with child := by simpa [elsewhere] using cell.child }

theorem Layout.set_sibling (layout : Layout address nodes memory heap)
    (apart : Apart address nodes) {last cur : Nat} (inside : last < nodes.length)
    (bound : cur < nodes.length) :
    ∃ stored, Pointers.store memory (address last)
        (fun node => { node with sibling := some (address cur) }) = some stored ∧
      Layout address nodes stored
        { heap with sibling := Function.update heap.sibling last (some cur) } ∧
      Frame address nodes memory stored := by
  refine layout.store apart inside ?_ ?_ (update_within layout.siblings bound) layout.children
  · intro node cell
    exact { cell with sibling := by simp }
  · intro node other elsewhere cell
    exact { cell with sibling := by simpa [elsewhere] using cell.sibling }

/-- Placing a node under the parent that was found: first the parent is stored, then the
child of the parent or the sibling of the last child. -/
theorem Layout.adopt (layout : Layout address nodes memory heap) (apart : Apart address nodes)
    {cur find fuel : Nat} {process : Process} {next : Heap} (inside : cur < nodes.length)
    (at_cur : nodes[cur]? = some process) (bound : find < nodes.length)
    (found : nodes.findIdx? (fun find => find.pid = process.ppid) = some find)
    (placed : place nodes fuel heap cur = some next) :
    ∃ adopted,
      Yields (fun fuel => Pointers.adopt (address cur) (address find) fuel memory) adopted ∧
      Layout address nodes adopted next ∧ Frame address nodes memory adopted := by
  simp only [place, at_cur, found] at placed
  obtain ⟨parented, set_parent, layout, frame⟩ := layout.set_parent apart inside find
  obtain ⟨node, held, cell⟩ := layout.cell find bound
  have family := cell.child
  cases first : heap.child find with
  | none =>
    simp only [first, Option.some.injEq, Option.map_none] at placed family
    subst placed
    obtain ⟨stored, set_child, layout, written⟩ := layout.set_child apart bound inside
    refine ⟨stored, ⟨0, fun fuel _ => ?_⟩, layout, frame.trans written⟩
    simp [Pointers.adopt, set_parent, held, family, set_child]
  | some child =>
    simp only [first, Option.map_some] at placed family
    split at placed
    next => cases placed
    next last walked =>
      cases placed
      obtain ⟨at_last, least, walks⟩ := layout.walk (layout.children find child first) walked
      obtain ⟨stored, set_sibling, layout, written⟩ := layout.set_sibling apart at_last inside
      refine ⟨stored, ⟨least, fun fuel enough => ?_⟩, layout, frame.trans written⟩
      simp [Pointers.adopt, set_parent, held, family, walks fuel enough, set_sibling]

theorem Layout.node_at (layout : Layout address nodes memory heap) {place : Nat}
    (inside : place < nodes.length) :
    ∃ node, memory (address place) = some node ∧ Cell address nodes heap place node ∧
      node.process = nodes[place] := by
  obtain ⟨node, held, cell⟩ := layout.cell place inside
  have same := cell.process
  rw [List.getElem?_eq_getElem inside, Option.some.injEq] at same
  exact ⟨node, held, cell, same.symm⟩

/-- The search goes on from a node that is not the parent. -/
theorem Layout.search_next (layout : Layout address nodes memory heap) {cur : Address}
    {tmp_ppid : Int} {place : Nat} (inside : place < nodes.length)
    (other : nodes[place].pid ≠ tmp_ppid) {result : Memory}
    (rest : Yields (fun fuel =>
      Pointers.search cur tmp_ppid memory fuel (pointer address nodes (place + 1))) result) :
    Yields (fun fuel =>
      Pointers.search cur tmp_ppid memory fuel (pointer address nodes place)) result := by
  obtain ⟨node, held, cell, same⟩ := layout.node_at inside
  have pid : node.pid ≠ tmp_ppid := by rwa [← same] at other
  refine rest.step fun fuel => ?_
  rw [pointer, if_pos inside, Pointers.search]
  simp [held, pid, cell.tmpLink]

theorem Layout.search_hit (layout : Layout address nodes memory heap) {cur : Address}
    {tmp_ppid : Int} {find : Nat} (inside : find < nodes.length)
    (hit : nodes[find].pid = tmp_ppid)
    (before : ∀ place, (earlier : place < find) → nodes[place].pid ≠ tmp_ppid) {result : Memory}
    (adopts : Yields (fun fuel => Pointers.adopt cur (address find) fuel memory) result)
    {place : Nat} (reached : place ≤ find) :
    Yields (fun fuel =>
      Pointers.search cur tmp_ppid memory fuel (pointer address nodes place)) result := by
  -- The induction is on how far the search still is from the parent.
  obtain ⟨distance, far⟩ := Nat.exists_eq_add_of_le reached
  induction distance generalizing place with
  | zero =>
    obtain rfl : place = find := far.symm
    obtain ⟨node, held, cell, same⟩ := layout.node_at inside
    have pid : node.pid = tmp_ppid := by rwa [← same] at hit
    refine adopts.step fun fuel => ?_
    rw [pointer, if_pos inside, Pointers.search]
    simp [held, pid]
  | succ distance ih =>
    exact layout.search_next (by omega) (before place (by omega)) (ih (by omega) (by omega))

theorem Layout.search_miss (layout : Layout address nodes memory heap) (cur : Address)
    {tmp_ppid : Int} (none_fits : ∀ process ∈ nodes, process.pid ≠ tmp_ppid) {place : Nat}
    (reached : place ≤ nodes.length) :
    Yields (fun fuel =>
      Pointers.search cur tmp_ppid memory fuel (pointer address nodes place)) memory := by
  obtain ⟨distance, whole⟩ := Nat.exists_eq_add_of_le reached
  induction distance generalizing place with
  | zero =>
    refine (Yields.const memory).step fun fuel => ?_
    rw [pointer, if_neg (by omega), Pointers.search]
  | succ distance ih =>
    apply layout.search_next (by omega) (none_fits _ (List.getElem_mem _))
    exact ih (by omega) (by omega)

/-- The body of the outer loop does to the memory what `place` does to the links. -/
theorem Layout.search (layout : Layout address nodes memory heap) (apart : Apart address nodes)
    {cur fuel : Nat} (inside : cur < nodes.length) {next : Heap}
    (placed : place nodes fuel heap cur = some next) :
    ∃ searched,
      Yields (fun fuel => Pointers.search (address cur) nodes[cur].ppid memory fuel
        (pointer address nodes 0)) searched ∧
      Layout address nodes searched next ∧ Frame address nodes memory searched := by
  have at_cur : nodes[cur]? = some nodes[cur] := List.getElem?_eq_getElem inside
  cases found : nodes.findIdx? fun find => find.pid = nodes[cur].ppid with
  | none =>
    have none_fits : ∀ process ∈ nodes, process.pid ≠ nodes[cur].ppid := by
      simpa using List.findIdx?_eq_none_iff.mp found
    simp only [place, at_cur, found, Option.some.injEq] at placed
    subst placed
    exact ⟨memory, layout.search_miss _ none_fits (Nat.zero_le _), layout, fun _ _ => rfl⟩
  | some find =>
    obtain ⟨bound, hit, before⟩ := List.findIdx?_eq_some_iff_getElem.mp found
    obtain ⟨adopted, adopts, layout', frame⟩ := layout.adopt apart inside at_cur bound found placed
    refine ⟨adopted, ?_, layout', frame⟩
    exact layout.search_hit bound (by simpa using hit)
      (fun place earlier => by simpa using before place earlier) adopts (Nat.zero_le _)

/-- From the node that is placed next, the outer loop reaches the final links. -/
theorem Layout.traverse {garbage : Nat → Option Nat} {count : Nat}
    (layout : Layout address nodes memory (linked nodes garbage count))
    (apart : Apart address nodes) (reached : count ≤ nodes.length) :
    ∃ sorted,
      Yields (fun fuel => Pointers.traverse (address 0) fuel memory (pointer address nodes count))
        sorted ∧
      Layout address nodes sorted (linked nodes garbage nodes.length) ∧
      Frame address nodes memory sorted := by
  obtain ⟨distance, far⟩ := Nat.exists_eq_add_of_le reached
  induction distance generalizing memory count with
  | zero =>
    obtain rfl : nodes.length = count := far
    refine ⟨memory, (Yields.const memory).step fun fuel => ?_, layout, fun _ _ => rfl⟩
    rw [pointer, if_neg (Nat.lt_irrefl _), Pointers.traverse]
  | succ distance ih =>
    have inside : count < nodes.length := by omega
    obtain ⟨node, held, cell, same⟩ := layout.node_at inside
    have placed := @place_linked nodes garbage count nodes.length inside (Nat.le_refl _)
    obtain ⟨searched, searches, layout, frame⟩ := layout.search apart inside placed
    -- The link to the next node is loaded again after the body.
    obtain ⟨again, reloaded, next⟩ := layout.cell count inside
    obtain ⟨sorted, traverses, layout, written⟩ := ih layout inside (by omega)
    have ppid : node.ppid = nodes[count].ppid := by rw [← same]; rfl
    have first : pointer address nodes 0 = some (address 0) := if_pos (by omega)
    rw [← ppid, first] at searches
    have goes_on : Yields (fun fuel => (searched (address count)).bind fun node =>
        Pointers.traverse (address 0) fuel searched node.tmpLink) sorted := by
      simpa [reloaded, next.tmpLink] using traverses
    have body : Yields (fun fuel =>
        (Pointers.search (address count) node.ppid memory fuel (some (address 0))).bind
          fun searched => (searched (address count)).bind fun node =>
            Pointers.traverse (address 0) fuel searched node.tmpLink) sorted :=
      searches.bind goes_on
    refine ⟨sorted, body.step fun fuel => ?_, layout, frame.trans written⟩
    rw [pointer, if_pos inside, Pointers.traverse]
    simp [held]

end Layout

end LinuxProgramming.ProcessTree.Pointers

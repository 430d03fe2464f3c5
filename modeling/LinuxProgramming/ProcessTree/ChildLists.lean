import LinuxProgramming.ProcessTree.Pointers

/-! The child lists that `sortNode` leaves in memory.

The list it is given can hold any ppids: those of missing processes, its own
pid, or a cycle of them.
-/

set_option autoImplicit false

namespace LinuxProgramming.ProcessTree.Pointers
open Foundation

/-- The nodes that are met when a link is followed to its end. -/
def Follows (memory : Memory) (link : ProcessNode → Option Address) :
    Option Address → List Address → Prop
  | pointer, [] => pointer = none
  | pointer, address :: rest => pointer = some address ∧
      ∃ node, memory address = some node ∧ Follows memory link (link node) rest

section Follows

variable {memory : Memory} {link : ProcessNode → Option Address}

theorem Follows.start {start : Option Address} {nodes : List Address}
    (follows : Follows memory link start nodes) : start = nodes.head? := by
  cases nodes with
  | nil => exact follows
  | cons address rest => exact follows.1

/-- Each node is linked to the one at the next place. -/
theorem follows_iff {nodes : List Address} : Follows memory link nodes.head? nodes ↔
    ∀ i address, nodes[i]? = some address →
      ∃ node, memory address = some node ∧ link node = nodes[i + 1]? := by
  induction nodes with
  | nil => simp [Follows]
  | cons first rest ih =>
    constructor
    · rintro ⟨-, node, held, follows⟩ i address at_i
      have second := follows.start
      cases i with
      | zero =>
        simp only [List.getElem?_cons_zero, Option.some.injEq] at at_i
        refine ⟨node, at_i ▸ held, ?_⟩
        rw [second, List.getElem?_cons_succ, List.head?_eq_getElem?]
      | succ i =>
        rw [second] at follows
        exact ih.mp follows i address at_i
    · intro links
      obtain ⟨node, held, second⟩ := links 0 first rfl
      refine ⟨rfl, node, held, ?_⟩
      rw [second, List.getElem?_cons_succ, ← List.head?_eq_getElem?]
      exact ih.mpr fun i address at_i => links (i + 1) address at_i

/-- A write elsewhere leaves the links as they are. -/
theorem Follows.frame {after : Memory} {start : Option Address} {nodes : List Address}
    (follows : Follows memory link start nodes) (same : ∀ a ∈ nodes, after a = memory a) :
    Follows after link start nodes := by
  induction nodes generalizing start with
  | nil => exact follows
  | cons first rest ih =>
    obtain ⟨pointed, node, held, follows⟩ := follows
    refine ⟨pointed, node, ?_, ih follows fun a later => same a (List.mem_cons_of_mem _ later)⟩
    rw [same first List.mem_cons_self, held]

theorem Follows.allocated {start : Option Address} {nodes : List Address}
    (follows : Follows memory link start nodes) {a : Address} (member : a ∈ nodes) :
    ∃ node, memory a = some node := by
  rw [follows.start] at follows
  obtain ⟨i, bound, same⟩ := List.getElem_of_mem member
  have at_i : nodes[i]? = some a := by rw [List.getElem?_eq_getElem bound, same]
  obtain ⟨node, held, -⟩ := follows_iff.mp follows i a at_i
  exact ⟨node, held⟩

end Follows

/-- The list that `sortNode` is given. -/
structure Listed (memory : Memory) (root : Option Address) (nodes : List Address) : Prop where
  chain : Follows memory ProcessNode.tmpLink root nodes
  unlinked : ∀ a ∈ nodes, ∀ node, memory a = some node → node.sibling = none ∧ node.child = none
  positive : ∀ a ∈ nodes, ∀ node, memory a = some node → 0 < node.pid
  distinct : nodes.Pairwise fun a b =>
    (memory a).map ProcessNode.pid ≠ (memory b).map ProcessNode.pid

/-- The nodes of a list whose ppid is the pid of this one, in list order. -/
def childrenOf (memory : Memory) (nodes : List Address) (p : Address) : List Address :=
  nodes.filter fun c => (memory c).map ProcessNode.ppid = (memory p).map ProcessNode.pid

/-- The child lists are those of the ppids. -/
structure Built (memory : Memory) (nodes : List Address) : Prop where
  chain : ∀ p ∈ nodes, ∃ node, memory p = some node ∧
    Follows memory ProcessNode.sibling node.child (childrenOf memory nodes p)
  once : ∀ p ∈ nodes, (childrenOf memory nodes p).Nodup
  parent : ∀ p ∈ nodes, ∀ c ∈ childrenOf memory nodes p, ∃ node,
    memory c = some node ∧ node.parent = some p
  apart : ∀ p ∈ nodes, ∀ q ∈ nodes, ∀ c ∈ childrenOf memory nodes p,
    c ∈ childrenOf memory nodes q → p = q

section Places

variable {memory : Memory} {all : List Address}

/-- The process at an address that is allocated. -/
def processAt (memory : Memory) (a : Address) : Process :=
  ((memory a).map ProcessNode.process).getD newRoot

variable (memory all) in
/-- The addresses by their places in the list. -/
def addressOf (place : Nat) : Address := all.getD place 0

theorem addressOf_eq {place : Nat} {a : Address} (at_place : all[place]? = some a) :
    addressOf all place = a := by
  rw [addressOf, List.getD_eq_getElem?_getD, at_place, Option.getD_some]

theorem map_addressOf : (List.range all.length).map (addressOf all) = all := by
  apply List.ext_getElem (by simp)
  intro i _ inside
  simp [addressOf_eq (List.getElem?_eq_getElem inside)]

theorem pointer_eq {nodes : List Process} (sizes : nodes.length = all.length) (place : Nat) :
    pointer (addressOf all) nodes place = all[place]? := by
  rw [pointer, sizes]
  split
  next inside => rw [List.getElem?_eq_getElem inside, addressOf_eq (List.getElem?_eq_getElem inside)]
  next outside => rw [List.getElem?_eq_none (Nat.le_of_not_lt outside)]

theorem apart_addressOf {nodes : List Process} (sizes : nodes.length = all.length)
    (nodup : all.Nodup) : Apart (addressOf all) nodes := by
  intro i bound j below same
  rw [sizes] at bound below
  rw [addressOf_eq (List.getElem?_eq_getElem bound), addressOf_eq (List.getElem?_eq_getElem below)]
    at same
  exact (List.Nodup.getElem_inj_iff nodup).mp same

/-- The list as it is before the loop has started. -/
theorem layout_created (chain : Follows memory ProcessNode.tmpLink all.head? all)
    (unlinked : ∀ a ∈ all, ∀ node, memory a = some node → node.sibling = none ∧ node.child = none) :
    Layout (addressOf all) (all.map (processAt memory)) memory (created fun _ => none) := by
  refine ⟨?_, (fun _ _ linked => nomatch linked), (fun _ _ linked => nomatch linked)⟩
  intro place inside
  rw [List.length_map] at inside
  have at_place := List.getElem?_eq_getElem inside
  obtain ⟨node, held, next⟩ := follows_iff.mp chain place _ at_place
  obtain ⟨sibling, child⟩ := unlinked _ (List.getElem_mem inside) node held
  refine ⟨node, by rw [addressOf_eq at_place, held], ?_⟩
  exact {
    process := by simp [at_place, processAt, held]
    sibling := sibling
    child := child
    parent := fun p at_p => by cases at_p
    tmpLink := by rw [next, pointer_eq (by simp)] }

/-- With distinct pids, the search finds the node whose pid is the ppid. -/
theorem parentIndex_eq_some_iff {nodes : List Process} (distinct : (nodes.map Process.pid).Nodup)
    {i p : Nat} (inside : i < nodes.length) (bound : p < nodes.length) :
    parentIndex nodes i = some p ↔ nodes[i].ppid = nodes[p].pid := by
  rw [parentIndex, List.getElem?_eq_getElem inside, Option.bind_some,
    List.findIdx?_eq_some_iff_getElem]
  constructor
  · rintro ⟨_, hit, -⟩
    exact (of_decide_eq_true hit).symm
  · intro same
    refine ⟨bound, decide_eq_true same.symm, fun q earlier => ?_⟩
    have different := List.pairwise_iff_getElem.mp distinct q p (by simp; omega) (by simpa) earlier
    simpa [same] using different

variable {nodes : List Process} {garbage : Nat → Option Nat}

/-- The children by their ppids are the family that the links are made of. -/
theorem childrenOf_eq {heap : Heap} (layout : Layout (addressOf all) nodes memory heap)
    (sizes : nodes.length = all.length) (distinct : (nodes.map Process.pid).Nodup) {p : Nat}
    (bound : p < nodes.length) :
    childrenOf memory all (addressOf all p) =
      (kids (parentIndex nodes) nodes.length p).map (addressOf all) := by
  have number : ∀ i < nodes.length, (memory (addressOf all i)).map ProcessNode.ppid =
      (memory (addressOf all p)).map ProcessNode.pid ↔ parentIndex nodes i = some p := by
    intro i inside
    obtain ⟨child, held, -, first⟩ := layout.node_at inside
    obtain ⟨node, kept, -, second⟩ := layout.node_at bound
    rw [parentIndex_eq_some_iff distinct inside bound, held, kept, ← first, ← second]
    simp [ProcessNode.process]
  calc childrenOf memory all (addressOf all p)
    _ = ((List.range nodes.length).map (addressOf all)).filter fun c =>
          (memory c).map ProcessNode.ppid =
            (memory (addressOf all p)).map ProcessNode.pid := by
        rw [sizes, map_addressOf, childrenOf]
    _ = (kids (parentIndex nodes) nodes.length p).map (addressOf all) := by
        rw [List.filter_map, kids]
        congr 1
        apply List.filter_congr
        intro i member
        simpa using number i (List.mem_range.mp member)

/-- Along a family the siblings are linked in their order. -/
theorem follows_family (layout : Layout (addressOf all) nodes memory
    (linked nodes garbage nodes.length)) (p : Nat) :
    Follows memory ProcessNode.sibling
      ((firstChild (parentIndex nodes) nodes.length p).map (addressOf all))
      ((kids (parentIndex nodes) nodes.length p).map (addressOf all)) := by
  rw [firstChild, ← List.head?_map, follows_iff]
  intro i address at_i
  rw [List.getElem?_map] at at_i
  obtain ⟨child, at_child, rfl⟩ := Option.map_eq_some_iff.mp at_i
  obtain ⟨bound, same⟩ := List.getElem?_eq_some_iff.mp at_child
  -- The family is cut at this child: its next sibling is the head of what stands behind.
  have split : kids (parentIndex nodes) nodes.length p =
      (kids (parentIndex nodes) nodes.length p).take i ++
        child :: (kids (parentIndex nodes) nodes.length p).drop (i + 1) := by
    rw [← same, List.getElem_cons_drop, List.take_append_drop]
  have inside : child < nodes.length := (mem_kids.mp (by rw [split]; simp)).1
  obtain ⟨node, held, cell⟩ := layout.cell child inside
  refine ⟨node, held, ?_⟩
  have next : (linked nodes garbage nodes.length).sibling child =
      (younger (parentIndex nodes) nodes.length child).head? := rfl
  rw [cell.sibling, next, younger_of_split split, List.head?_drop, List.getElem?_map]

theorem built_of_layout (layout : Layout (addressOf all) nodes memory
    (linked nodes garbage nodes.length)) (sizes : nodes.length = all.length)
    (distinct : (nodes.map Process.pid).Nodup) (nodup : all.Nodup) : Built memory all := by
  have place_of : ∀ p ∈ all, ∃ i, ∃ inside : i < nodes.length, p = addressOf all i := by
    intro p member
    obtain ⟨i, bound, same⟩ := List.getElem_of_mem member
    exact ⟨i, by omega, by rw [addressOf_eq (List.getElem?_eq_getElem bound), same]⟩
  refine ⟨?_, fun p _ => nodup.filter _, ?_, ?_⟩
  · intro p member
    obtain ⟨i, inside, rfl⟩ := place_of p member
    obtain ⟨node, held, cell⟩ := layout.cell i inside
    refine ⟨node, held, ?_⟩
    rw [childrenOf_eq layout sizes distinct inside, cell.child]
    exact follows_family layout i
  · intro p member c child
    obtain ⟨i, inside, rfl⟩ := place_of p member
    rw [childrenOf_eq layout sizes distinct inside] at child
    obtain ⟨j, kid, rfl⟩ := List.mem_map.mp child
    obtain ⟨bound, found⟩ := mem_kids.mp kid
    obtain ⟨node, held, cell⟩ := layout.cell j bound
    exact ⟨node, held, cell.parent i (by simp [linked, bound, found])⟩
  · intro p member q other c child another
    obtain ⟨i, inside, rfl⟩ := place_of p member
    obtain ⟨j, bound, rfl⟩ := place_of q other
    -- Both have the pid that is the ppid of the child.
    have first := of_decide_eq_true (List.mem_filter.mp child).2
    have second := of_decide_eq_true (List.mem_filter.mp another).2
    obtain ⟨node, held, -, one⟩ := layout.node_at inside
    obtain ⟨twin, kept, -, two⟩ := layout.node_at bound
    have same : nodes[i].pid = nodes[j].pid := by
      rw [first, held, kept] at second
      rw [← one, ← two]
      simpa [ProcessNode.process] using second
    have equal : i = j := by
      apply (List.getElem?_inj (by simpa) distinct).mp
      simp [same, inside, bound]
    rw [equal]

end Places

theorem processAt_eq {memory : Memory} {a : Address} {node : ProcessNode}
    (held : memory a = some node) : processAt memory a = node.process := by
  rw [processAt, held, Option.map_some, Option.getD_some]

section Sorted

variable {memory before : Memory} {all : List Address} {nodes : List Process} {heap : Heap}

/-- At each address there is the process of its place, with the link to the next address. -/
theorem Layout.at_address (layout : Layout (addressOf all) nodes memory heap)
    (sizes : nodes.length = all.length) {i : Nat} {a : Address} (at_i : all[i]? = some a) :
    ∃ node, memory a = some node ∧ nodes[i]? = some node.process ∧
      node.tmpLink = all[i + 1]? := by
  obtain ⟨bound, -⟩ := List.getElem?_eq_some_iff.mp at_i
  obtain ⟨node, held, cell⟩ := layout.cell i (sizes ▸ bound)
  rw [addressOf_eq at_i] at held
  exact ⟨node, held, cell.process, by rw [cell.tmpLink, pointer_eq sizes]⟩

theorem Layout.follows (layout : Layout (addressOf all) nodes memory heap)
    (sizes : nodes.length = all.length) :
    Follows memory ProcessNode.tmpLink all.head? all := by
  apply follows_iff.mpr
  intro i a at_i
  obtain ⟨node, held, -, next⟩ := layout.at_address sizes at_i
  exact ⟨node, held, next⟩

theorem Layout.process_at
    (layout : Layout (addressOf all) (all.map (processAt before)) memory heap) {a : Address}
    (member : a ∈ all) : (memory a).map ProcessNode.process = some (processAt before a) := by
  obtain ⟨i, at_i⟩ := List.getElem?_of_mem member
  obtain ⟨node, held, number, -⟩ := layout.at_address (List.length_map _) at_i
  rw [List.getElem?_map, at_i, Option.map_some] at number
  rw [held, Option.map_some, number]

end Sorted

/-- The added root has a pid of its own. -/
theorem Listed.distinct_pids {memory : Memory} {root : Option Address} {places : List Address}
    (listed : Listed memory root places) :
    ((newRoot :: places.map (processAt memory)).map Process.pid).Nodup := by
  rw [List.map_cons, List.nodup_cons, List.map_map]
  constructor
  · intro zero
    obtain ⟨a, member, same⟩ := List.mem_map.mp zero
    obtain ⟨node, held⟩ := listed.chain.allocated member
    have positive := listed.positive a member node held
    rw [Function.comp_apply, processAt_eq held] at same
    have pid : node.pid = 0 := same
    omega
  · refine List.pairwise_map.mpr (listed.distinct.imp_of_mem fun {a b} first second differ => ?_)
    obtain ⟨node, held⟩ := listed.chain.allocated first
    obtain ⟨other, kept⟩ := listed.chain.allocated second
    rw [held, kept] at differ
    rw [Function.comp_apply, Function.comp_apply, processAt_eq held, processAt_eq kept]
    simpa [ProcessNode.process] using differ

/-- `sortNode` terminates, with the child lists that the ppids ask for; the list
itself, the numbers in it and the rest of the memory stay as they were. -/
theorem sortNode_built {memory : Memory} {root : Option Address} {places : List Address}
    (listed : Listed memory root places) {fresh : Address} (unallocated : memory fresh = none)
    (garbage : Option Address) :
    ∃ sorted, Yields (sortNode fresh garbage memory root) sorted ∧
      Built sorted (fresh :: places) ∧
      Follows sorted ProcessNode.tmpLink root places ∧
      (sorted fresh).map ProcessNode.process = some newRoot ∧
      (∀ a ∈ places, (sorted a).map ProcessNode.process = (memory a).map ProcessNode.process) ∧
      ∀ a, a ∉ fresh :: places → sorted a = memory a := by
  let added : ProcessNode := { createProcessNode garbage 0 (-1) "test" with tmpLink := root }
  let before := Function.update memory fresh (some added)
  have old : ∀ a ∈ places, before a = memory a := by
    intro a member
    obtain ⟨node, held⟩ := listed.chain.allocated member
    refine Function.update_of_ne (fun same => ?_) ..
    rw [same, unallocated] at held
    cases held
  have outside : fresh ∉ places := by
    intro member
    obtain ⟨node, held⟩ := listed.chain.allocated member
    rw [unallocated] at held
    cases held
  have nodup : (fresh :: places).Nodup :=
    List.nodup_cons.mpr ⟨outside, listed.distinct.imp fun differ same => differ (by rw [same])⟩
  have at_fresh : before fresh = some added := Function.update_self ..
  have chain : Follows before ProcessNode.tmpLink (fresh :: places).head? (fresh :: places) :=
    ⟨rfl, added, at_fresh, listed.chain.frame old⟩
  have unlinked : ∀ a ∈ fresh :: places, ∀ node, before a = some node →
      node.sibling = none ∧ node.child = none := by
    intro a member node held
    rcases List.mem_cons.mp member with rfl | later
    · rw [at_fresh, Option.some.injEq] at held
      exact held ▸ ⟨rfl, rfl⟩
    · exact listed.unlinked a later node (by rw [← old a later, held])
  have same : (fresh :: places).map (processAt before) =
      newRoot :: places.map (processAt memory) := by
    rw [List.map_cons, processAt_eq at_fresh]
    congr 1
    exact List.map_congr_left fun a member => by rw [processAt, processAt, old a member]
  have sizes : ((fresh :: places).map (processAt before)).length = (fresh :: places).length :=
    List.length_map _
  have start := layout_created chain unlinked
  rw [← linked_zero] at start
  obtain ⟨sorted, sorts, layout, frame⟩ :=
    start.traverse (apart_addressOf sizes nodup) (Nat.zero_le _)
  refine ⟨sorted, ?_, ?_, ?_, ?_, ?_, ?_⟩
  · have first : pointer (addressOf (fresh :: places)) ((fresh :: places).map (processAt before)) 0 =
        some fresh := by rw [pointer_eq sizes]; rfl
    rw [first] at sorts
    exact sorts
  · exact built_of_layout layout sizes (by rw [same]; exact listed.distinct_pids) nodup
  · obtain ⟨-, node, held, follows⟩ := layout.follows sizes
    rw [follows.start, ← listed.chain.start] at follows
    exact follows
  · rw [layout.process_at List.mem_cons_self, processAt_eq at_fresh]
    rfl
  · intro a member
    obtain ⟨node, held⟩ := listed.chain.allocated member
    rw [layout.process_at (List.mem_cons_of_mem _ member),
      processAt_eq ((old a member).trans held), held]
    rfl
  · intro a absent
    rw [frame a fun place inside equal => absent ?_]
    · exact Function.update_of_ne (fun equal => absent (by rw [equal]; exact List.mem_cons_self)) ..
    · rw [sizes] at inside
      rw [equal, addressOf_eq (List.getElem?_eq_getElem inside)]
      exact List.getElem_mem inside

/-- A process that names itself as its parent, and a child of it. -/
def selfParent : Memory :=
  Function.update (Function.update (fun _ => none) 1 (some (createProcessNode none 9 7 "sh"))) 2
    (some { createProcessNode none 7 7 "init" with tmpLink := some 1 })

theorem selfParent_listed : Listed selfParent (some 2) [2, 1] where
  chain := ⟨rfl, _, rfl, rfl, _, rfl, rfl⟩
  unlinked := by simp [selfParent, createProcessNode]
  positive := by simp [selfParent, createProcessNode]
  distinct := by decide

theorem sortNode_built_selfParent :
    ∃ sorted, Yields (sortNode 0 none selfParent (some 2)) sorted ∧
      Built sorted [0, 2, 1] ∧
      Follows sorted ProcessNode.tmpLink (some 2) [2, 1] ∧
      (sorted 0).map ProcessNode.process = some newRoot ∧
      (∀ a ∈ [2, 1],
        (sorted a).map ProcessNode.process = (selfParent a).map ProcessNode.process) ∧
      ∀ a, a ∉ [0, 2, 1] → sorted a = selfParent a :=
  sortNode_built selfParent_listed rfl none

end LinuxProgramming.ProcessTree.Pointers

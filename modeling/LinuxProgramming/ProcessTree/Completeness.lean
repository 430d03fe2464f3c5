import LinuxProgramming.ProcessTree.Printing
import Mathlib.Logic.Relation

/-! Which processes are printed. -/

set_option autoImplicit false

namespace LinuxProgramming.ProcessTree
open Foundation

/-- The ppids lead from a process to 0, over processes of the list. -/
inductive Rooted (processes : List Process) : Process → Prop where
  | root {process : Process} : process ∈ processes → process.ppid = 0 → Rooted processes process
  | child {process above : Process} : process ∈ processes → Rooted processes above →
      process.ppid = above.pid → Rooted processes process

/-- A snapshot of the processes. -/
structure Forest (processes : List Process) : Prop where
  distinct : (processes.map Process.pid).Nodup
  positive : ∀ process ∈ processes, 0 < process.pid
  rooted : ∀ process ∈ processes, Rooted processes process
  first : ∃ process, processes.head? = some process ∧ process.ppid = 0

section Walk

variable (parent : Nat → Option Nat) (total : Nat)

/-- The line of first children, from the added root on. -/
def OnLine (p : Nat) : Prop :=
  Relation.ReflTransGen (fun p c => firstChild parent total p = some c) 0 p

/-- The families that are printed with that of a node: its own, and if it has two
children those of the later siblings up to the first one without a child. -/
def Beside (c q : Nat) : Prop :=
  q = c ∨ 2 ≤ (kids parent total c).length ∧ q ∈ uncles parent total c

variable {parent total}

theorem mem_layer {c i : Nat} :
    i ∈ layer parent total c ↔ ∃ q, Beside parent total c q ∧ i ∈ kids parent total q := by
  unfold layer Beside
  by_cases two : 2 ≤ (kids parent total c).length
  · rw [if_pos two]
    simp only [List.mem_append, List.mem_flatMap, two, true_and]
    constructor
    · rintro (own | ⟨q, inside, member⟩)
      · exact ⟨c, .inl rfl, own⟩
      · exact ⟨q, .inr inside, member⟩
    · rintro ⟨q, rfl | inside, member⟩
      · exact .inl member
      · exact .inr ⟨q, inside, member⟩
  · simp [two]

theorem uncles_sublist {c : Nat} : (uncles parent total c).Sublist (younger parent total c) :=
  List.takeWhile_sublist _

/-- Nothing stands twice on a layer, since no node has two parents. -/
theorem layer_nodup (c : Nat) : (layer parent total c).Nodup := by
  unfold layer
  split
  next =>
    have families : ((uncles parent total c).flatMap (kids parent total)).Nodup := by
      have distinct : (uncles parent total c).Nodup := by
        apply uncles_sublist.nodup
        unfold younger
        split
        · exact List.nodup_nil
        · exact kids_nodup.filter _
      refine List.nodup_flatMap.mpr ⟨fun _ _ => kids_nodup, distinct.imp ?_⟩
      -- A common child of two uncles would have two parents.
      intro q r different i first second
      have one := (mem_kids.mp first).2
      exact different (Option.some.inj (one.symm.trans (mem_kids.mp second).2))
    refine List.nodup_append.mpr ⟨kids_nodup, families, ?_⟩
    rintro i own j other rfl
    obtain ⟨q, uncle, kid⟩ := List.mem_flatMap.mp other
    have same := Option.some.inj ((mem_kids.mp own).2.symm.trans (mem_kids.mp kid).2)
    have later := (mem_younger.mp (uncles_sublist.subset uncle)).1
    omega
  next =>
    rw [List.append_nil]
    exact kids_nodup

section Levels

variable (top : parent 0 = none)

include top

/-- A layer stands on the level below its node. -/
theorem level_of_layer {depth c i : Nat} (here : Level parent depth c)
    (member : i ∈ layer parent total c) : Level parent (depth + 1) i := by
  obtain ⟨q, beside, kid⟩ := mem_layer.mp member
  have at_depth : Level parent depth q := by
    rcases beside with rfl | ⟨-, uncle⟩
    · exact here
    · obtain ⟨-, above, at_c, sibling⟩ := mem_younger.mp (uncles_sublist.subset uncle)
      cases here with
      | root => simp [top] at at_c
      | child upper found =>
        cases found.symm.trans at_c
        exact upper.child (mem_kids.mp sibling).2
  exact at_depth.child (mem_kids.mp kid).2

theorem level_of_walk {depth level p i : Nat} (here : Level parent level p)
    (member : i ∈ walk parent total depth p) : ∃ lower, level < lower ∧ Level parent lower i := by
  induction depth generalizing level p with
  | zero => cases member
  | succ depth ih =>
    simp only [walk] at member
    split at member
    next => cases member
    next c down =>
      rcases List.mem_append.mp member with near | far
      · exact ⟨level + 1, Nat.lt_succ_self _, level_of_layer top here near⟩
      · have kid := List.mem_of_mem_head? down
        obtain ⟨lower, below, found⟩ := ih (here.child (mem_kids.mp kid).2) far
        exact ⟨lower, Nat.lt_of_succ_lt below, found⟩

theorem walk_nodup {depth level p : Nat} (here : Level parent level p) :
    (walk parent total depth p).Nodup := by
  induction depth generalizing level p with
  | zero => exact List.nodup_nil
  | succ depth ih =>
    simp only [walk]
    split
    next => exact List.nodup_nil
    next c down =>
      have below := here.child (mem_kids.mp (List.mem_of_mem_head? down)).2
      refine List.nodup_append.mpr ⟨layer_nodup p, ih below, ?_⟩
      rintro i near j far rfl
      obtain ⟨lower, deeper, found⟩ := level_of_walk top below far
      exact Nat.lt_irrefl _ (Level.unique top found (level_of_layer top here near) ▸ deeper)

end Levels

/-- The walk is made of the layers of the nodes on the line. -/
theorem mem_walk {bound : Nat} (bounded : ∀ depth i, Level parent depth i → depth ≤ bound)
    {depth level p i : Nat} (here : Level parent level p) (enough : bound < level + depth) :
    i ∈ walk parent total depth p ↔
      ∃ c, Relation.ReflTransGen (fun p c => firstChild parent total p = some c) p c ∧
        i ∈ layer parent total c := by
  induction depth generalizing level p with
  | zero =>
    have := bounded level p here
    omega
  | succ depth ih =>
    cases down : firstChild parent total p with
    | none =>
      have childless : kids parent total p = [] := List.head?_eq_none_iff.mp down
      have empty : layer parent total p = [] := by simp [layer, childless]
      simp only [walk, down, List.not_mem_nil, false_iff, not_exists, not_and]
      intro c line member
      rcases line.cases_head with rfl | ⟨next, step, -⟩
      · simp [empty] at member
      · simp [down] at step
    | some c =>
      have kid := List.mem_of_mem_head? down
      simp only [walk, down, List.mem_append, ih (here.child (mem_kids.mp kid).2) (by omega)]
      constructor
      · rintro (near | ⟨q, line, member⟩)
        · exact ⟨p, .refl, near⟩
        · exact ⟨q, line.head down, member⟩
      · rintro ⟨q, line, member⟩
        rcases line.cases_head with rfl | ⟨next, step, rest⟩
        · exact .inl member
        · cases down.symm.trans step
          exact .inr ⟨q, rest, member⟩

end Walk

/-- Every process that has a child is reached: its family is printed with that of a
node on the line of first children. -/
def Reached (parent : Nat → Option Nat) (total : Nat) : Prop :=
  ∀ q, kids parent total q ≠ [] → ∃ c, OnLine parent total c ∧ Beside parent total c q

/-- The nodes with a parent are all on layers of the line if the nodes with a child
are all reached. -/
theorem reached_iff {parent : Nat → Option Nat} {total : Nat} :
    Reached parent total ↔ ∀ i < total, parent i ≠ none →
      ∃ c, OnLine parent total c ∧ i ∈ layer parent total c := by
  constructor
  · intro reached i inside has_parent
    obtain ⟨q, found⟩ := Option.ne_none_iff_exists'.mp has_parent
    have kid : i ∈ kids parent total q := mem_kids.mpr ⟨inside, found⟩
    obtain ⟨c, line, beside⟩ := reached q (List.ne_nil_of_mem kid)
    exact ⟨c, line, mem_layer.mpr ⟨q, beside, kid⟩⟩
  · intro layers q family
    obtain ⟨i, kid⟩ := List.exists_mem_of_ne_nil _ family
    obtain ⟨inside, found⟩ := mem_kids.mp kid
    obtain ⟨c, line, member⟩ := layers i inside (by simp [found])
    obtain ⟨other, beside, same⟩ := mem_layer.mp member
    cases found.symm.trans (mem_kids.mp same).2
    exact ⟨c, line, beside⟩

section Forest

variable {processes : List Process} (forest : Forest processes)

include forest

theorem Forest.nodes_distinct : ((newRoot :: processes).map Process.pid).Nodup := by
  refine List.nodup_cons.mpr ⟨?_, forest.distinct⟩
  intro zero
  obtain ⟨process, member, same⟩ := List.mem_map.mp zero
  have positive := forest.positive process member
  simp [newRoot] at same
  omega

theorem Forest.address_unique {i j : Nat} {process : Process}
    (here : (newRoot :: processes)[i]? = some process)
    (there : (newRoot :: processes)[j]? = some process) : i = j := by
  have distinct : (newRoot :: processes).Nodup := forest.nodes_distinct.of_map _
  have inside := (List.getElem?_eq_some_iff.mp here).1
  exact (List.getElem?_inj inside distinct).mp (here.trans there.symm)

/-- The parent of a node is the one that has its ppid. -/
theorem Forest.parentIndex_eq_some {i p : Nat} {process above : Process}
    (here : (newRoot :: processes)[i]? = some process)
    (there : (newRoot :: processes)[p]? = some above) (same : process.ppid = above.pid) :
    parentIndex (newRoot :: processes) i = some p := by
  obtain ⟨inside, rfl⟩ := List.getElem?_eq_some_iff.mp there
  simp only [parentIndex, here, Option.bind_some]
  refine List.findIdx?_eq_some_iff_getElem.mpr ⟨inside, by simpa using same.symm, ?_⟩
  intro earlier below
  have different := List.pairwise_iff_getElem.mp forest.nodes_distinct earlier p
    (by simpa using Nat.lt_trans below inside) (by simpa using inside) below
  simp only [List.getElem_map] at different
  simpa [same] using different

theorem Forest.top : parentIndex (newRoot :: processes) 0 = none := by
  have absent : ∀ process ∈ processes, process.pid ≠ -1 := by
    intro process member same
    have positive := forest.positive process member
    omega
  simpa [parentIndex, newRoot, List.findIdx?_cons] using absent

theorem Forest.first_of_root :
    firstChild (parentIndex (newRoot :: processes)) (newRoot :: processes).length 0 = some 1 := by
  obtain ⟨process, head, zero⟩ := forest.first
  obtain ⟨rest, rfl⟩ := List.head?_eq_some_iff.mp head
  have node : (newRoot :: process :: rest)[1]? = some process := rfl
  have root : (newRoot :: process :: rest)[0]? = some newRoot := rfl
  have second := forest.parentIndex_eq_some node root zero
  unfold firstChild kids
  rw [List.head?_filter, List.find?_range_eq_some]
  refine ⟨by simpa using second, by simp, ?_⟩
  intro earlier below
  obtain rfl : earlier = 0 := by omega
  simp [forest.top]

/-- The nodes with a parent are those of the list. -/
theorem Forest.has_parent {i : Nat} {process : Process} (here : processes[i]? = some process) :
    ∃ p, parentIndex (newRoot :: processes) (i + 1) = some p := by
  have node : (newRoot :: processes)[i + 1]? = some process := here
  have member : process ∈ processes := List.mem_of_getElem? here
  cases forest.rooted process member with
  | root _ zero =>
    have root : (newRoot :: processes)[0]? = some newRoot := rfl
    exact ⟨0, forest.parentIndex_eq_some node root zero⟩
  | @child _ above _ rooted same =>
    have inside : above ∈ processes := by cases rooted <;> assumption
    obtain ⟨p, there⟩ := List.mem_iff_getElem?.mp inside
    have upper : (newRoot :: processes)[p + 1]? = some above := there
    exact ⟨p + 1, forest.parentIndex_eq_some node upper same⟩

end Forest

/-- The nodes on levels are finitely many, so the levels end. -/
theorem levels_bounded {nodes : List Process} (top : parentIndex nodes 0 = none) :
    ∃ bound, ∀ depth i, Level (parentIndex nodes) depth i → depth ≤ bound := by
  have below : ∀ count, ∃ bound, ∀ depth, ∀ i < count, Level (parentIndex nodes) depth i →
      depth ≤ bound := by
    intro count
    induction count with
    | zero => exact ⟨0, by simp⟩
    | succ count ih =>
      obtain ⟨bound, older⟩ := ih
      -- A node has one level at most, so each adds one number to the bound.
      by_cases reached : ∃ depth, Level (parentIndex nodes) depth count
      · obtain ⟨depth, here⟩ := reached
        refine ⟨max bound depth, fun other i inside level => ?_⟩
        rcases Nat.lt_succ_iff_lt_or_eq.mp inside with before | rfl
        · exact Nat.le_trans (older other i before level) (Nat.le_max_left _ _)
        · rw [level.unique top here]
          exact Nat.le_max_right _ _
      · refine ⟨bound, fun other i inside level => ?_⟩
        rcases Nat.lt_succ_iff_lt_or_eq.mp inside with before | rfl
        · exact older other i before level
        · exact absurd ⟨other, level⟩ reached
  obtain ⟨bound, all⟩ := below (nodes.length + 1)
  refine ⟨bound, fun depth i level => all depth i ?_ level⟩
  cases level with
  | root => exact Nat.succ_pos _
  | child _ found =>
    have inside : i < nodes.length := by
      by_contra outside
      simp [parentIndex, List.getElem?_eq_none (Nat.le_of_not_lt outside)] at found
    exact Nat.lt_succ_of_lt inside

/-- The program prints the nodes on the layers of the line, each once, and ends. -/
theorem main_prints (garbage : Nat → Option Nat) {processes : List Process}
    (forest : Forest processes) :
    ∃ (addresses : List Nat) (lines : List Line), Yields (main garbage processes) lines ∧
      lines.map Line.process = addresses.filterMap ((newRoot :: processes)[·]?) ∧
      addresses.Nodup ∧ ∀ i, i ∈ addresses ↔
        ∃ c, OnLine (parentIndex (newRoot :: processes)) (newRoot :: processes).length c ∧
          i ∈ layer (parentIndex (newRoot :: processes)) (newRoot :: processes).length c := by
  obtain ⟨bound, bounded⟩ := levels_bounded forest.top
  have enough : bound < 0 + (bound + 1) := by omega
  obtain ⟨lines, walked, printed⟩ := printLayers_walk garbage bounded .root enough 0
  refine ⟨_, lines, ?_, printed, walk_nodup forest.top .root, fun i => mem_walk bounded .root enough⟩
  have sorted : Yields (fun fuel => sortNode fuel garbage processes)
      (tree (newRoot :: processes) garbage) :=
    ⟨processes.length + 1, fun fuel more => sortNode_linked garbage more⟩
  have filled : processes ≠ [] := by
    rintro rfl
    obtain ⟨process, head, -⟩ := forest.first
    cases head
  apply sorted.bind
  rw [forest.first_of_root] at walked
  simpa only [if_neg filled, printProcessTree] using walked

/-- Every process is printed, and none twice. -/
def PrintedOnce (lines : List Line) (processes : List Process) : Prop :=
  ∀ process ∈ processes, (lines.map Line.process).count process = 1

/-- The print ends for every forest, and it is complete if and only if every process
with a child is reached. -/
theorem printed_once_iff (garbage : Nat → Option Nat) {processes : List Process}
    (forest : Forest processes) :
    (∃ lines, Yields (main garbage processes) lines ∧ PrintedOnce lines processes) ↔
      Reached (parentIndex (newRoot :: processes)) (newRoot :: processes).length := by
  obtain ⟨addresses, lines, yields, printed, once, on_layers⟩ := main_prints garbage forest
  rw [reached_iff]
  simp only [← on_layers]
  constructor
  · rintro ⟨other, same_run, complete⟩ i inside has_parent
    cases same_run.unique yields
    cases i with
    | zero => exact absurd forest.top has_parent
    | succ j =>
      have here : (newRoot :: processes)[j + 1]? = some (newRoot :: processes)[j + 1] :=
        List.getElem?_eq_getElem inside
      have count := complete _ (List.mem_of_getElem? here)
      have member := List.count_pos_iff.mp (Nat.lt_of_lt_of_eq Nat.zero_lt_one count.symm)
      rw [printed, List.mem_filterMap] at member
      obtain ⟨i, address, found⟩ := member
      rwa [forest.address_unique here found]
  · intro everywhere
    refine ⟨lines, yields, fun process member => ?_⟩
    obtain ⟨j, here⟩ := List.mem_iff_getElem?.mp member
    obtain ⟨p, found⟩ := forest.has_parent here
    have node : (newRoot :: processes)[j + 1]? = some process := here
    have inside := (List.getElem?_eq_some_iff.mp node).1
    have address := everywhere (j + 1) inside (by simp [found])
    rw [printed]
    apply List.count_eq_one_of_mem
    · exact once.filterMap fun i k process first second =>
        forest.address_unique (Option.mem_def.mp first) (Option.mem_def.mp second)
    · exact List.mem_filterMap.mpr ⟨j + 1, address, node⟩

/-- Two families, whose parents are siblings. -/
def sessions : List Process :=
  [⟨1, 0, "init"⟩, ⟨2, 1, "login"⟩, ⟨3, 1, "cron"⟩, ⟨4, 2, "sh"⟩, ⟨5, 2, "vi"⟩, ⟨6, 3, "sh"⟩]

theorem sessions_forest : Forest sessions where
  distinct := by decide
  positive := by decide
  rooted := by
    have init : Rooted sessions ⟨1, 0, "init"⟩ := .root (by decide) rfl
    have login : Rooted sessions ⟨2, 1, "login"⟩ := init.child (by decide) rfl
    have cron : Rooted sessions ⟨3, 1, "cron"⟩ := init.child (by decide) rfl
    intro process member
    simp only [sessions, List.mem_cons, List.not_mem_nil, or_false] at member
    rcases member with rfl | rfl | rfl | rfl | rfl | rfl
    · exact init
    · exact login
    · exact cron
    · exact login.child (by decide) rfl
    · exact login.child (by decide) rfl
    · exact cron.child (by decide) rfl
  first := ⟨⟨1, 0, "init"⟩, rfl, rfl⟩

theorem sessions_reached : Reached (parentIndex (newRoot :: sessions)) 7 := by
  have line₁ : OnLine (parentIndex (newRoot :: sessions)) 7 1 := .single (by decide)
  have line₂ : OnLine (parentIndex (newRoot :: sessions)) 7 2 := line₁.tail (by decide)
  have families : ∀ i < 7, ∀ q, parentIndex (newRoot :: sessions) i = some q →
      q = 0 ∨ q = 1 ∨ q = 2 ∨ q = 3 := by
    simp only [← Option.mem_def]
    decide
  intro q family
  obtain ⟨i, kid⟩ := List.exists_mem_of_ne_nil _ family
  obtain ⟨inside, found⟩ := mem_kids.mp kid
  rcases families i inside q found with rfl | rfl | rfl | rfl
  · exact ⟨0, .refl, .inl rfl⟩
  · exact ⟨1, line₁, .inl rfl⟩
  · exact ⟨2, line₂, .inl rfl⟩
  · exact ⟨2, line₂, .inr ⟨by decide, by decide⟩⟩

theorem printed_once_sessions : ∃ lines, Yields (main (fun _ => none) sessions) lines ∧
    PrintedOnce lines sessions :=
  (printed_once_iff (fun _ => none) sessions_forest).mpr sessions_reached

/-- The first root has one child, so the families of its siblings are left out. -/
def twoRoots : List Process :=
  [⟨1, 0, "systemd"⟩, ⟨2, 0, "kthreadd"⟩, ⟨3, 1, "sh"⟩, ⟨4, 2, "kworker"⟩]

theorem twoRoots_forest : Forest twoRoots where
  distinct := by decide
  positive := by decide
  rooted := by
    have first : Rooted twoRoots ⟨1, 0, "systemd"⟩ := .root (by decide) rfl
    have second : Rooted twoRoots ⟨2, 0, "kthreadd"⟩ := .root (by decide) rfl
    intro process member
    simp only [twoRoots, List.mem_cons, List.not_mem_nil, or_false] at member
    rcases member with rfl | rfl | rfl | rfl
    · exact first
    · exact second
    · exact first.child (by decide) rfl
    · exact second.child (by decide) rfl
  first := ⟨⟨1, 0, "systemd"⟩, rfl, rfl⟩

theorem twoRoots_printed : Yields (main (fun _ => none) twoRoots)
    [⟨0, ⟨1, 0, "systemd"⟩⟩, ⟨0, ⟨2, 0, "kthreadd"⟩⟩, ⟨0, ⟨3, 1, "sh"⟩⟩] := by
  refine ⟨5, fun fuel enough => ?_⟩
  obtain ⟨fuel, rfl⟩ := Nat.exists_eq_add_of_le' enough
  rfl

theorem not_always_printed_once : ¬∀ (garbage : Nat → Option Nat) (processes : List Process),
    Forest processes →
      ∃ lines, Yields (main garbage processes) lines ∧ PrintedOnce lines processes := by
  intro complete
  obtain ⟨lines, yields, once⟩ := complete (fun _ => none) twoRoots twoRoots_forest
  cases yields.unique twoRoots_printed
  have missing := once ⟨4, 2, "kworker"⟩ (by decide)
  revert missing
  decide

end LinuxProgramming.ProcessTree

import LinuxProgramming.Foundation.Machine

/-! A process that is waited for, and its descendants, in time.

The members of a family are created by their parents, in any order, and end in
any order, but nobody ends before its own children are created. The caller of
the root goes on when the root has ended, or at once if it does not wait.
-/

set_option autoImplicit false

namespace LinuxProgramming.Foundation

/-- `parent` is looked at for members other than the root only. -/
structure Family (P : Type) where
  members : List P
  root : P
  parent : P → P
  waits : Bool

namespace Family

variable {P : Type} [DecidableEq P]

structure State (P : Type) where
  created : P → Bool
  ended : P → Bool
  returned : Bool

inductive Action (P : Type) where
  | create (p : P)
  | finish (p : P)
  | resume
  deriving DecidableEq, Repr

/-- The children that a process has yet to create. -/
def pending (family : Family P) (state : State P) (p : P) : Bool :=
  family.members.any fun child =>
    child != family.root && family.parent child == p && !state.created child

def step (family : Family P) (state : State P) : Action P → Option (State P)
  | .create p =>
    let parent := family.parent p
    if p ∈ family.members ∧ state.created p = false ∧
        (p = family.root ∨ state.created parent = true ∧ state.ended parent = false) then
      some { state with created := Function.update state.created p true }
    else none
  | .finish p =>
    if state.created p = true ∧ state.ended p = false ∧ family.pending state p = false then
      some { state with ended := Function.update state.ended p true }
    else none
  | .resume =>
    if state.created family.root = true ∧ state.returned = false ∧
        (family.waits = true → state.ended family.root = true) then
      some { state with returned := true }
    else none

def machine (family : Family P) : Machine (State P) (Action P) where
  start := ⟨fun _ => false, fun _ => false, false⟩
  step := family.step

/-- Once the caller has gone on, nobody who was created is still there. -/
def Settled (family : Family P) : Prop :=
  ∀ state, family.machine.Reachable state → state.returned = true →
    ∀ p, state.created p = true → state.ended p = true

variable {family : Family P} {state next : State P}

/-- With nobody but the root in the family, the wait is for all of it. -/
structure Alone (family : Family P) (state : State P) : Prop where
  only : ∀ p, state.created p = true → p = family.root
  waited : state.returned = true → state.ended family.root = true

theorem Alone.step {action : Action P} (waits : family.waits = true)
    (single : ∀ p ∈ family.members, p = family.root) (alone : Alone family state)
    (taken : family.step state action = some next) : Alone family next := by
  cases action with
  | create p =>
    simp only [Family.step] at taken
    split at taken
    next enabled =>
      cases taken
      refine ⟨fun other created => ?_, alone.waited⟩
      by_cases same : other = p
      · rw [same]
        exact single p enabled.1
      · simp only [ne_eq, same, not_false_eq_true, Function.update_of_ne] at created
        exact alone.only other created
    next => cases taken
  | finish p =>
    simp only [Family.step] at taken
    split at taken
    next enabled =>
      cases taken
      have root : p = family.root := alone.only p enabled.1
      exact ⟨alone.only, fun _ => by simp [root]⟩
    next => cases taken
  | resume =>
    simp only [Family.step] at taken
    split at taken
    next enabled =>
      cases taken
      exact ⟨alone.only, fun _ => enabled.2.2 waits⟩
    next => cases taken

theorem settled_of_single (waits : family.waits = true)
    (single : ∀ p ∈ family.members, p = family.root) : family.Settled := by
  intro state reached returned p created
  have start : Alone family family.machine.start :=
    ⟨fun _ created => absurd created Bool.false_ne_true,
      fun returned => absurd returned Bool.false_ne_true⟩
  have alone := Machine.invariant start (fun alone taken => alone.step waits single taken) reached
  rw [alone.only p created]
  exact alone.waited returned

/-- A family whose root is not created stays empty. -/
theorem nobody_of_reachable (absent : family.root ∉ family.members)
    (reached : family.machine.Reachable state) (p : P) : state.created p = false := by
  induction reached generalizing p with
  | start => rfl
  | @step state next action _ taken nobody =>
    have disabled : family.step state action = none := by
      cases action with
      | create p =>
        have other : p ∈ family.members → p ≠ family.root := fun member same => absent (same ▸ member)
        simp only [step, nobody]
        rw [if_neg]
        rintro ⟨member, -, root | ⟨parent, -⟩⟩
        · exact other member root
        · exact absurd parent Bool.false_ne_true
      | finish p => simp [step, nobody]
      | resume => simp [step, nobody]
    rw [show family.machine.step state action = none from disabled] at taken
    cases taken

theorem settled_of_absent (absent : family.root ∉ family.members) : family.Settled := by
  intro state reached _ p created
  rw [nobody_of_reachable absent reached p] at created
  cases created

/-- The root creates any of its children while nothing has ended. -/
theorem reach_created (present : family.root ∈ family.members) (children : List P)
    (inside : ∀ child ∈ children, child ∈ family.members ∧ family.parent child = family.root) :
    ∃ state, family.machine.Reachable state ∧ state.returned = false ∧
      (∀ p, state.ended p = false) ∧
      ∀ p, state.created p = true ↔ p = family.root ∨ p ∈ children := by
  induction children with
  | nil =>
    have taken : family.machine.step family.machine.start (.create family.root) =
        some ⟨Function.update (fun _ => false) family.root true, fun _ => false, false⟩ := by
      simp [step, machine, present]
    refine ⟨_, .step .start taken, rfl, fun _ => rfl, fun p => ?_⟩
    by_cases same : p = family.root <;> simp [same]
  | cons child children ih =>
    obtain ⟨state, reached, waiting, alive, created⟩ :=
      ih fun other member => inside other (List.mem_cons_of_mem child member)
    obtain ⟨member, parent⟩ := inside child List.mem_cons_self
    by_cases before : state.created child = true
    · have known := (created child).mp before
      refine ⟨state, reached, waiting, alive, fun p => ?_⟩
      rw [created, List.mem_cons]
      constructor
      · exact fun cases => cases.imp_right .inr
      · rintro (root | rfl | later)
        · exact .inl root
        · exact known
        · exact .inr later
    · have started : state.created family.root = true := (created family.root).mpr (.inl rfl)
      have taken : family.machine.step state (.create child) =
          some { state with created := Function.update state.created child true } := by
        simp [step, machine, member, before, parent, started, alive]
      refine ⟨_, reached.step taken, waiting, alive, fun p => ?_⟩
      by_cases same : p = child
      · simp [same]
      · simp [same, created]

/-- A caller that does not wait, or a root with a child, leaves somebody behind. -/
theorem not_settled (present : family.root ∈ family.members)
    (loose : family.waits = false ∨
      ∃ child ∈ family.members, child ≠ family.root ∧ family.parent child = family.root) :
    ¬ family.Settled := by
  intro settled
  rcases loose with unwaited | ⟨child, member, different, parent⟩
  · obtain ⟨state, reached, waiting, alive, created⟩ := reach_created present [] (by simp)
    have started : state.created family.root = true := (created family.root).mpr (.inl rfl)
    have taken : family.machine.step state .resume = some { state with returned := true } := by
      simp [machine, step, started, waiting, unwaited]
    have gone := settled _ (reached.step taken) rfl family.root started
    rw [show state.ended family.root = false from alive _] at gone
    cases gone
  · let children := family.members.filter fun p => p ≠ family.root ∧ family.parent p = family.root
    obtain ⟨state, reached, waiting, alive, created⟩ := reach_created present children (by
      intro other inside
      obtain ⟨member, facts⟩ := List.mem_filter.mp inside
      exact ⟨member, (of_decide_eq_true facts).2⟩)
    have started : state.created family.root = true := (created family.root).mpr (.inl rfl)
    have born : state.created child = true :=
      (created child).mpr (.inr (List.mem_filter.mpr ⟨member, decide_eq_true ⟨different, parent⟩⟩))
    -- The root has created all its children, so it may end before any of them.
    have complete : family.pending state family.root = false := by
      rw [pending, List.any_eq_false]
      intro other inside due
      simp only [bne_iff_ne, ne_eq, Bool.and_eq_true, beq_iff_eq, Bool.not_eq_true'] at due
      obtain ⟨⟨apart, from_root⟩, unborn⟩ := due
      have exists_child := (created other).mpr
        (.inr (List.mem_filter.mpr ⟨inside, decide_eq_true ⟨apart, from_root⟩⟩))
      rw [unborn] at exists_child
      cases exists_child
    have finished : family.machine.step state (.finish family.root) =
        some { state with ended := Function.update state.ended family.root true } := by
      simp [machine, step, started, alive, complete]
    have resumed : family.machine.step
        { state with ended := Function.update state.ended family.root true } .resume =
          some { state with ended := Function.update state.ended family.root true, returned := true } := by
      simp [machine, step, started, waiting]
    have gone := settled _ ((reached.step finished).step resumed) rfl child born
    simp [different, alive] at gone

/-- Waiting for the root settles a family exactly when there is nobody else. -/
theorem settled_iff (family : Family P)
    (branch : (∃ p ∈ family.members, p ≠ family.root) →
      ∃ child ∈ family.members, child ≠ family.root ∧ family.parent child = family.root) :
    family.Settled ↔ family.root ∉ family.members ∨
      family.waits = true ∧ ∀ p ∈ family.members, p = family.root := by
  constructor
  · intro settled
    by_contra otherwise
    simp only [not_or, not_not, not_and, not_forall] at otherwise
    obtain ⟨present, loose⟩ := otherwise
    refine not_settled present ?_ settled
    cases waits : family.waits with
    | false => exact .inl rfl
    | true =>
      obtain ⟨p, member, different⟩ := loose waits
      exact .inr (branch ⟨p, member, different⟩)
  · rintro (absent | ⟨waits, single⟩)
    · exact settled_of_absent absent
    · exact settled_of_single waits single

end Family

end LinuxProgramming.Foundation

import LinuxProgramming.Foundation.Process

/-! Who descends from whom among the processes that a program leaves.

The process that runs a program comes first among them, and all others descend
from it. The rules follow the sequencing of programs, so that a program built
from system calls needs no look at its runs.
-/

set_option autoImplicit false

namespace LinuxProgramming.Foundation

variable {α β : Type}

def pids (lives : List (Life α)) : List Pid := lives.map fun life => life.process.pid

def Life.ended : Life α → Bool
  | .running _ _ => false
  | .executing _ | .exited _ _ | .killed _ _ => true

/-- `parents` says that with a descendant its parent is among the processes. -/
structure Lineal (pid : Pid) (lives : List (Life α)) : Prop where
  first : ∃ caller children, lives = caller :: children ∧ caller.process.pid = pid ∧
    ∀ life ∈ children, pid <+: life.process.pid ∧ life.process.pid ≠ pid
  parents : ∀ other ∈ pids lives, other ≠ pid → other.dropLast ∈ pids lives

namespace Lineal

variable {pid : Pid} {lives : List (Life α)}

theorem own (lineal : Lineal pid lives) : pid ∈ pids lives := by
  obtain ⟨caller, children, rfl, same, -⟩ := lineal.first
  simp [pids, same]

theorem descends (lineal : Lineal pid lives) : ∀ other ∈ pids lives, pid <+: other := by
  obtain ⟨caller, children, rfl, same, below⟩ := lineal.first
  intro other member
  obtain ⟨life, inside, rfl⟩ := List.mem_map.mp member
  rcases List.mem_cons.mp inside with rfl | inside
  · exact same ▸ List.prefix_rfl
  · exact (below life inside).1

theorem singleton {life : Life α} (same : life.process.pid = pid) : Lineal pid [life] where
  first := ⟨life, [], rfl, same, fun other member => by cases member⟩
  parents other member different := by
    simp only [pids, List.map_cons, List.map_nil, List.mem_singleton] at member
    exact absurd (member.trans same) different

/-- The first processes go on, each to a lineage of its own. -/
theorem flatMap (lineal : Lineal pid lives) {next : Life α → List (Life β)}
    (each : ∀ life, Lineal life.process.pid (next life)) : Lineal pid (lives.flatMap next) := by
  have kept : ∀ other ∈ pids lives, other ∈ pids (lives.flatMap next) := by
    intro other member
    obtain ⟨life, inside, rfl⟩ := List.mem_map.mp member
    obtain ⟨result, from_life, same⟩ := List.mem_map.mp (each life).own
    exact List.mem_map.mpr ⟨result, List.mem_flatMap.mpr ⟨life, inside, from_life⟩, same⟩
  refine ⟨?_, fun other member different => ?_⟩
  · obtain ⟨caller, children, rfl, same, below⟩ := lineal.first
    obtain ⟨head, rest, head_eq, head_pid, head_below⟩ := (each caller).first
    rw [same] at head_pid head_below
    refine ⟨head, rest ++ children.flatMap next, ?_, head_pid, fun life member => ?_⟩
    · rw [List.flatMap_cons, head_eq, List.cons_append]
    · rcases List.mem_append.mp member with member | member
      · exact head_below life member
      · obtain ⟨child, inside, from_child⟩ := List.mem_flatMap.mp member
        have down := (each child).descends _ (List.mem_map_of_mem from_child)
        obtain ⟨above, apart⟩ := below child inside
        refine ⟨above.trans down, fun equal => apart ?_⟩
        -- Prefixes of each other are equal.
        exact List.IsPrefix.eq_of_length_le (equal ▸ down) above.length_le
  · obtain ⟨result, inside, rfl⟩ := List.mem_map.mp member
    obtain ⟨life, from_life, result_of⟩ := List.mem_flatMap.mp inside
    by_cases same : result.process.pid = life.process.pid
    · rw [same] at different ⊢
      exact kept _ (lineal.parents _ (List.mem_map_of_mem from_life) different)
    · have parent := (each life).parents _ (List.mem_map_of_mem result_of) same
      obtain ⟨above, up, equal⟩ := List.mem_map.mp parent
      exact List.mem_map.mpr ⟨above, List.mem_flatMap.mpr ⟨life, from_life, up⟩, equal⟩

/-- Where there are descendants at all, one of them is a child. -/
theorem child_of_descendant (lineal : Lineal pid lives) {other : Pid} (member : other ∈ pids lives)
    (different : other ≠ pid) : ∃ child ∈ pids lives, child ≠ pid ∧ child.dropLast = pid := by
  -- Upwards from the descendant: each step to a parent shortens its name.
  induction size : other.length using Nat.strong_induction_on generalizing other with
  | _ bound ih =>
    by_cases child : other.dropLast = pid
    · exact ⟨other, member, different, child⟩
    · have filled : other ≠ [] := by
        rintro rfl
        exact different (List.prefix_nil.mp (lineal.descends _ member)).symm
      have shorter : other.dropLast.length < bound := by
        have := List.length_pos_iff.mpr filled
        rw [List.length_dropLast]
        omega
      exact ih _ shorter (lineal.parents other member different) child rfl

/-- Nobody else is there exactly when all processes have the same name. -/
theorem length_eq_one_iff (lineal : Lineal pid lives) :
    lives.length = 1 ↔ ∀ other ∈ pids lives, other = pid := by
  obtain ⟨caller, children, rfl, same, below⟩ := lineal.first
  constructor
  · intro single
    have nobody : children = [] := by simpa using single
    subst nobody
    simp [pids, same]
  · intro all
    have nobody : children = [] := by
      rw [List.eq_nil_iff_forall_not_mem]
      intro life member
      exact (below life member).2 (all _ (List.mem_map_of_mem (List.mem_cons_of_mem caller member)))
    simp [nobody]

end Lineal

/-- A program that only changes its process. -/
def StraightProgram (program : System α) : Prop :=
  ∀ oracle process, ∃ value after, program oracle process = [.running value after] ∧
    after.pid = process.pid

namespace StraightProgram

theorem pure (value : α) : StraightProgram (Pure.pure value : System α) :=
  fun _ process => ⟨value, process, rfl, rfl⟩

theorem bind {first : System α} {next : α → System β} (before : StraightProgram first)
    (after : ∀ value, StraightProgram (next value)) : StraightProgram (first >>= next) := by
  intro oracle process
  obtain ⟨value, ran, run, same⟩ := before oracle process
  obtain ⟨result, last, later, kept⟩ := after value oracle ran
  exact ⟨result, last, (System.bind_running run next).trans later, kept.trans same⟩

theorem setErrno (error : Nat) : StraightProgram (System.setErrno error) :=
  fun _ _ => ⟨_, _, rfl, rfl⟩

theorem message (text : String) : StraightProgram (System.message text) :=
  fun _ _ => ⟨_, _, rfl, rfl⟩

theorem dup2 (fd target : Nat) : StraightProgram (System.dup2 fd target) := by
  intro oracle process
  unfold System.dup2
  split
  · exact ⟨_, _, rfl, rfl⟩
  · split <;> exact ⟨_, _, rfl, rfl⟩

theorem close (fd : Nat) : StraightProgram (System.close fd) := by
  intro oracle process
  unfold System.close
  split
  · exact ⟨_, _, rfl, rfl⟩
  · split <;> exact ⟨_, _, rfl, rfl⟩

theorem openFile (path : Option String) (access : Access) :
    StraightProgram (System.openFile path access) := by
  intro oracle process
  unfold System.openFile
  split
  · exact ⟨_, _, rfl, rfl⟩
  · split <;> exact ⟨_, _, rfl, rfl⟩

end StraightProgram

/-- A program of which every run leaves a lineage. -/
def LinealProgram (program : System α) : Prop :=
  ∀ oracle process, Lineal process.pid (program oracle process)

theorem StraightProgram.lineal {program : System α} (straight : StraightProgram program) :
    LinealProgram program := by
  intro oracle process
  obtain ⟨value, after, run, same⟩ := straight oracle process
  rw [run]
  exact .singleton same

namespace LinealProgram

theorem pure (value : α) : LinealProgram (Pure.pure value : System α) :=
  (StraightProgram.pure value).lineal

theorem bind {first : System α} {next : α → System β} (before : LinealProgram first)
    (after : ∀ value, LinealProgram (next value)) : LinealProgram (first >>= next) := by
  intro oracle process
  rw [System.bind_run]
  refine (before oracle process).flatMap fun life => ?_
  cases life with
  | running value ran => exact after value oracle ran
  | executing | exited | killed => exact .singleton rfl

theorem exit (status : Nat) : LinealProgram (System.exit status : System α) :=
  fun _ _ => .singleton rfl

theorem exitErrno : LinealProgram (System.exitErrno : System α) := fun _ _ => .singleton rfl

theorem pipe : LinealProgram System.pipe := by
  intro oracle process
  unfold System.pipe
  split <;> exact .singleton rfl

theorem execvp (argv : List (Option String)) : LinealProgram (System.execvp argv) := by
  intro oracle process
  unfold System.execvp
  split
  · exact .singleton rfl
  · split <;> exact .singleton rfl

theorem fork : LinealProgram System.fork := by
  intro oracle process
  unfold System.fork
  split
  · exact .singleton rfl
  · refine ⟨⟨_, _, rfl, rfl, fun life member => ?_⟩, fun other member different => ?_⟩
    · cases List.mem_singleton.mp member
      simp
    · have child : other = process.child.pid := by
        simpa [pids, different] using member
      simp [child, pids]

/-- The child of a fork is there under a name of its own, whatever becomes of it. -/
theorem mem_fork {next : System.Forked → System β} (child : LinealProgram (next .child))
    {oracle : Oracle} {process : Process}
    (granted : oracle process.pid process.calls .fork = none) :
    process.child.pid ∈ pids ((System.fork >>= next) oracle process) := by
  have forks : System.fork oracle process =
      [.running (.parent process.child.pid) (process.succeed process.fds),
        .running .child process.child] := by
    rw [System.fork, granted]
  obtain ⟨life, member, same⟩ := List.mem_map.mp (child oracle process.child).own
  refine List.mem_map.mpr ⟨life, ?_, same⟩
  rw [System.bind_run, forks, List.flatMap_cons, List.flatMap_cons]
  exact List.mem_append_right _ (List.mem_append_left _ member)

end LinealProgram

/-- A program that nobody comes back from. -/
def EndingProgram (program : System α) : Prop :=
  ∀ oracle process, ∀ life ∈ program oracle process, life.ended = true

namespace EndingProgram

theorem exitErrno : EndingProgram (System.exitErrno : System α) := by
  intro oracle process life member
  cases List.mem_singleton.mp member
  rfl

/-- What comes first does not matter: whoever gets through it ends behind it. -/
theorem bind (first : System α) {next : α → System β}
    (after : ∀ value, EndingProgram (next value)) : EndingProgram (first >>= next) := by
  intro oracle process life member
  rw [System.bind_run] at member
  obtain ⟨before, -, later⟩ := List.mem_flatMap.mp member
  cases before with
  | running value ran => exact after value oracle ran life later
  | executing | exited | killed =>
    cases List.mem_singleton.mp later
    rfl

end EndingProgram

/-- The process has not been killed. -/
def Life.survives : Life α → Bool
  | .running _ _ | .executing _ | .exited _ _ => true
  | .killed _ _ => false

/-- A program in which nobody is killed. -/
def SurvivingProgram (program : System α) : Prop :=
  ∀ oracle process, ∀ life ∈ program oracle process, life.survives = true

theorem StraightProgram.surviving {program : System α} (straight : StraightProgram program) :
    SurvivingProgram program := by
  intro oracle process life member
  obtain ⟨value, after, run, -⟩ := straight oracle process
  rw [run] at member
  cases List.mem_singleton.mp member
  rfl

namespace SurvivingProgram

theorem bind {first : System α} {next : α → System β} (before : SurvivingProgram first)
    (after : ∀ value, SurvivingProgram (next value)) : SurvivingProgram (first >>= next) := by
  intro oracle process life member
  rw [System.bind_run] at member
  obtain ⟨middle, first_life, later⟩ := List.mem_flatMap.mp member
  cases middle with
  | running value ran => exact after value oracle ran life later
  | executing | exited =>
    cases List.mem_singleton.mp later
    rfl
  | killed => cases before oracle process _ first_life

theorem exit (status : Nat) : SurvivingProgram (System.exit status : System α) := by
  intro oracle process life member
  cases List.mem_singleton.mp member
  rfl

theorem exitErrno : SurvivingProgram (System.exitErrno : System α) := by
  intro oracle process life member
  cases List.mem_singleton.mp member
  rfl

theorem pipe : SurvivingProgram System.pipe := by
  intro oracle process life member
  unfold System.pipe at member
  split at member <;>
  · cases List.mem_singleton.mp member
    rfl

theorem fork : SurvivingProgram System.fork := by
  intro oracle process life member
  unfold System.fork at member
  split at member
  next =>
    cases List.mem_singleton.mp member
    rfl
  next =>
    rw [List.mem_pair] at member
    rcases member with rfl | rfl <;> rfl

theorem execvp {argv : List (Option String)} (named : argv.head?.join ≠ none) :
    SurvivingProgram (System.execvp argv) := by
  intro oracle process life member
  unfold System.execvp at member
  split at member
  next missing => exact absurd missing named
  next =>
    split at member <;>
    · cases List.mem_singleton.mp member
      rfl

end SurvivingProgram

/-- An exit behind a program changes the number of its processes no more than a
message does. -/
theorem length_bind_single {next : α → System β} {lives : List (Life α)} {oracle : Oracle}
    (single : ∀ value process, (next value oracle process).length = 1) :
    (lives.flatMap (System.andThen next oracle)).length = lives.length := by
  induction lives with
  | nil => rfl
  | cons life lives ih =>
    rw [List.flatMap_cons, List.length_append, ih, List.length_cons, Nat.add_comm]
    cases life with
    | running value process => rw [System.andThen, single]
    | executing | exited | killed => rfl

end LinuxProgramming.Foundation

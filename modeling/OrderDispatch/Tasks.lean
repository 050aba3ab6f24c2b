/-!
# Background tasks

Tasks that run beside the service, on a clock of milliseconds. A task that is no longer running
before it was told to stop is a sign of bad health. On shutdown all tasks are told to stop at once,
and none of them is waited for beyond a time limit.
-/

namespace OrderDispatch

/-- The kinds of tasks. -/
inductive TaskKind where
  /-- Takes work out of a queue until shutdown. -/
  | worker
  /-- Wakes up at regular times. -/
  | periodic
deriving DecidableEq, Repr

namespace TaskKind

/-- Every kind of task. -/
def all : List TaskKind := [worker, periodic]

/-- The name of a kind of task. -/
def name : TaskKind → String
  | worker => "worker"
  | periodic => "periodic"

/-- The kind of task with this name. -/
def ofName? (s : String) : Option TaskKind := all.find? (·.name == s)

end TaskKind

/-- How long a task runs. -/
inductive Course where
  /-- It is over as soon as it begins, whether it returns or breaks. -/
  | instant
  /-- It stops on being told to. -/
  | untilShutdown
  /-- It takes a fixed time and does not listen. -/
  | fixed (ms : Nat)
  /-- It takes a fixed time after being told to stop. -/
  | lingering (ms : Nat)
  /-- It never stops. -/
  | endless
deriving DecidableEq, Repr

/-- A task that was started at a time. -/
structure BackgroundTask where
  name : String
  kind : TaskKind
  course : Course
  startedAt : Nat
deriving DecidableEq, Repr

namespace BackgroundTask

/-- Whether a task that nobody told to stop is over. -/
def isStopped (t : BackgroundTask) (now : Nat) : Bool :=
  match t.course with
  | .instant => true
  | .fixed ms => t.startedAt + ms ≤ now
  | .untilShutdown | .lingering _ | .endless => false

/-- The time a task takes to end when it is told to stop now, at most `limit`. -/
def shutdownMs (t : BackgroundTask) (now limit : Nat) : Nat :=
  match t.course with
  | .instant | .untilShutdown => 0
  | .fixed ms => min (t.startedAt + ms - now) limit
  | .lingering ms => min ms limit
  | .endless => limit

end BackgroundTask

/-- Tasks under supervision, in the order they were started. -/
structure TaskGroup where
  tasks : List BackgroundTask
deriving DecidableEq, Repr

namespace TaskGroup

/-- No tasks. -/
def empty : TaskGroup := ⟨[]⟩

/-- Starts a task. -/
def start (g : TaskGroup) (name : String) (kind : TaskKind) (course : Course) (now : Nat) :
    TaskGroup :=
  ⟨g.tasks ++ [⟨name, kind, course, now⟩]⟩

/-- The count of tasks. -/
def size (g : TaskGroup) : Nat := g.tasks.length

/-- The names of the tasks that are no longer running. -/
def stopped (g : TaskGroup) (now : Nat) : List String :=
  (g.tasks.filter (·.isStopped now)).map (·.name)

/-- Whether every task is running. -/
def isHealthy (g : TaskGroup) (now : Nat) : Bool := (g.stopped now).isEmpty

/-- The time it takes to stop all tasks, waiting at most `limit` for them. -/
def shutdownMs (g : TaskGroup) (now limit : Nat) : Nat :=
  g.tasks.foldl (fun longest t => max longest (t.shutdownMs now limit)) 0

end TaskGroup

end OrderDispatch

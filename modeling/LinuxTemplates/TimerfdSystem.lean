import LinuxTemplates.IntervalTimers
import LinuxTemplates.ItimerspecProgram
import LinuxTemplates.TimerfdExpirations
import LinuxTemplates.TransitionSystems

/-!
# The whole of `timerfd.cpp`

`main` reads its two arguments, arms the kernel's timer and goes through its loop, while time
passes and the timer expires between any two of its steps. One clock stands for the two that
the program uses: they run at the same speed, and the timer is armed relative to it.
-/

namespace LinuxTemplates.TimerfdSystem
open TransitionSystems IntervalTimers CMemory DecimalStrings TimerfdProgram

/-- The calls of `main`, and the test of its loop. -/
inductive MainPc
  | arguments | create | settime | clockStart | test | read | clockNow
  | returned (ret : ℤ) | crashed
  deriving DecidableEq, Repr

/-- `error` is the line about a call that failed; `schedule` and `counts` record how the timer
was armed and what the reads have taken. -/
structure State where
  main : MainPc
  clock : ℕ
  timer : Timer
  time : Itimerspec
  maxLoop : Int32
  start : Timespec
  numLoop : Int32
  totalLoop : Int32
  reports : List Report
  error : Option String
  schedule : Schedule
  counts : List ℕ

/-- The arguments, whether `strdup` finds memory, and the time. -/
structure Env where
  argv : List (List UInt8)
  malloc : Bool
  clock : ℕ
  nulFree : ∀ arg ∈ argv, 0 ∉ arg

/-- Each argument is a block of its own. -/
def Env.memory (env : Env) : Memory := ⟨env.argv.map (· ++ [0])⟩

/-- `argv[i]`, or NULL behind the last argument. -/
def Env.argvAt (env : Env) (i : ℕ) : Option Ptr :=
  if i < env.argv.length then some ⟨i, 0⟩ else none

def clockGettime (clock : ℕ) : Timespec :=
  ⟨Int64.ofNat (clock / 1000000000), Int64.ofNat (clock % 1000000000)⟩

/-- The times that `timerfd_settime` accepts. -/
def Valid (t : Timespec) : Prop := 0 ≤ t.tvSec.toInt ∧ t.Normalised

instance (t : Timespec) : Decidable (Valid t) :=
  inferInstanceAs (Decidable (_ ∧ _ ∧ _))

/-- A call has failed: `main` says so and returns -1. -/
def State.fail (s : State) (message : String) : State :=
  { s with main := .returned (-1), error := some message }

/-- The two arguments; `none` stands for an access through NULL. -/
def arguments (env : Env) : Option (Itimerspec × Int32) := do
  let str ← env.argvAt 1
  let (time, m) ← itimerspecFromStr env.malloc env.memory str
  let loops ← env.argvAt 2
  let maxLoop ← atoiAt m loops
  return (time, maxLoop)

/-- One step of `main`, whose call succeeds. -/
def main (env : Env) (s : State) : Option State :=
  match s.main with
  | .arguments => match arguments env with
    | none => some { s with main := .crashed }
    | some (time, maxLoop) => some { s with main := .create, time := time, maxLoop := maxLoop }
  | .create => some { s with main := .settime }
  | .settime =>
    let delay := s.time.itValue.nanos.toNat
    let interval := s.time.itInterval.nanos.toNat
    if Valid s.time.itValue ∧ Valid s.time.itInterval then
      some { s with main := .clockStart, timer := .arm s.clock delay interval,
                    schedule := ⟨s.clock, delay, interval⟩ }
    else some (s.fail "timerfd_settime() err")
  | .clockStart => some { s with main := .test, start := clockGettime s.clock }
  | .test => some { s with main := if s.totalLoop < s.maxLoop then .read else .returned 0 }
  | .read =>
    if s.timer.ticks = 0 then none else
    let num := numLoop (UInt64.ofNat s.timer.ticks)
    some { s with main := .clockNow, numLoop := num, totalLoop := s.totalLoop + num,
                  timer := s.timer.take, counts := s.counts ++ [s.timer.ticks] }
  | .clockNow =>
    let now := clockGettime s.clock
    some { s with main := .test, reports := s.reports ++ [⟨now, elapsed s.start now,
      unsignedLongLong s.numLoop, unsignedLongLong s.totalLoop⟩] }
  | .returned _ | .crashed => none

/-- The call fails. -/
def fails (s : State) : Option State :=
  match s.main with
  | .create => some (s.fail "timerfd_create() err")
  | .settime => some (s.fail "timerfd_settime() err")
  | .clockStart | .clockNow => some (s.fail "clock_gettime() err")
  | .read => some (s.fail "read() err")
  | .arguments | .test | .returned _ | .crashed => none

/-- Time passes. -/
def tick (s : State) (d : ℕ) : Option State :=
  if 0 < d ∧ s.timer.Allows (s.clock + d) then some { s with clock := s.clock + d } else none

def expire (s : State) : Option State :=
  (s.timer.expire s.clock).map fun t => { s with timer := t }

inductive Action | main | fails | tick (d : ℕ) | expire
  deriving DecidableEq, Repr

def step (env : Env) (s : State) : Action → Option State
  | .main => main env s
  | .fails => fails s
  | .tick d => tick s d
  | .expire => expire s

/-- What `time` and `start` hold before they are written is never read. -/
def start (env : Env) : State :=
  ⟨.arguments, env.clock, ⟨none, 0, 0⟩, ⟨⟨0, 0⟩, ⟨0, 0⟩⟩, 0, ⟨0, 0⟩, 0, 0, [], none, ⟨0, 0, 0⟩, []⟩

def program (env : Env) : System State Action where
  init s := s = start env
  step := step env

/-- Nothing is left for `main` to do. -/
def MainPc.over : MainPc → Bool
  | .returned _ | .crashed => true
  | _ => false

/-! ## The turns of the loop -/

/-- What the reads that have been reported were answered, and when. -/
def State.deliveries (s : State) : List Delivery :=
  List.zipWith (fun n (report : Report) => (UInt64.ofNat n, report.now)) s.counts s.reports

/-- Where the loop stands between two turns. -/
def State.status (s : State) : Option Status :=
  match s.main with
  | .test => some (if s.totalLoop < s.maxLoop then .blocked else .returned 0)
  | .read => some .blocked
  | .returned ret => if ret = 0 then some (.returned 0) else none
  | _ => none

/-- The value of `total_loop` behind some turns. -/
def totalAfter (totalLoop : Int32) (ds : List Delivery) : Int32 :=
  ds.foldl (fun total d => total + numLoop d.1) totalLoop

theorem totalAfter_append (totalLoop : Int32) (ds : List Delivery) (d : Delivery) :
    totalAfter totalLoop (ds ++ [d]) = totalAfter totalLoop ds + numLoop d.1 := by
  rw [totalAfter, List.foldl_append]
  rfl

/-- One more turn of a loop that was waiting for it. -/
theorem loop_append {start : Timespec} {maxLoop : Int32} (d : Delivery) :
    ∀ {ds : List Delivery} {totalLoop : Int32} {reports : List Report},
      loop start maxLoop totalLoop (ds.map Delivery.turn) = ⟨reports, .blocked⟩ →
      loop start maxLoop totalLoop ((ds ++ [d]).map Delivery.turn) =
        ⟨reports ++ [⟨d.2, elapsed start d.2, unsignedLongLong (numLoop d.1),
            unsignedLongLong (totalAfter totalLoop (ds ++ [d]))⟩],
          if totalAfter totalLoop (ds ++ [d]) < maxLoop then .blocked else .returned 0⟩ := by
  intro ds
  induction ds with
  | nil =>
    intro totalLoop reports h
    rw [List.map_nil, loop] at h
    split at h
    · rename_i hlt
      cases h
      exact loop_turn hlt []
    · cases h
  | cons e ds ih =>
    intro totalLoop reports h
    by_cases hlt : totalLoop < maxLoop
    · rw [List.map_cons, loop_turn hlt, Output.mk.injEq] at h
      obtain ⟨rfl, hstatus⟩ := h
      have hrest : loop start maxLoop (totalLoop + numLoop e.1) (ds.map Delivery.turn) =
          ⟨(loop start maxLoop (totalLoop + numLoop e.1) (ds.map Delivery.turn)).reports,
            .blocked⟩ := by rw [← hstatus]
      rw [List.cons_append, List.map_cons, loop_turn hlt, ih hrest]
      rfl
    · rw [loop_done hlt] at h
      cases h

end LinuxTemplates.TimerfdSystem

import Workflow.Run
import Workflow.Task.Counter

/-! # Workflow.Demo

A small workflow with a task of every kind that needs no state of its own, and what a run of it
shows.
-/

namespace Workflow
namespace Demo

abbrev Tasks := List (Task Unit)

/-- Each of the tasks under an identity of its own, counted from `first`. -/
def queue (first : Nat) (tasks : Tasks) : Queue (Task Unit) :=
  ⟨tasks.mapIdx fun i task => ⟨⟨first + i⟩, task⟩⟩

def idKey : String := Counter.defaultKey

def counter (name : String) : Task Unit := Task.counter name idKey

def idText : Option Int64 → String
  | some id => "Some(" ++ (Value.int id).displayText ++ ")"
  | none => "None"

/-- Says what stands under the key of the counters. -/
def showId {κ : Type} (label : String) : Program Unit (Task Unit) κ Unit := do
  let id? := (← Program.scope).context.getInt? idKey
  Program.say (.info (label ++ idText id?))

def report : Task Unit :=
  .leaf "report" do
    showId "Current id: "
    return .ok ()

def switch : Task Unit :=
  .switch <|
    Switch.new (σ := Unit) (fun scope => .of scope (.text "case3"))
      |>.withCase (.text "case1") (queue 10 [counter "wjm"])
      |>.withCase (.text "case2") (queue 11 [counter "zz"])
      |>.withCase (.text "case3") (queue 12 [counter "jj"])

def announced : Task Unit :=
  let before : Hook Unit Bool := do
    showId "this before execute: "
    return true
  .aspect (counter "if else is false") (some before) none

def branch : Task Unit :=
  .conditional (fun scope => .of scope false)
    (.builder fun _ => (queue 20 [counter "if else is true"], ()))
    (.builder fun _ => (queue 20 [announced], ()))

def main : Queue (Task Unit) :=
  queue 0 [counter "Main Task 1", counter "Main Task 2", counter "Main Task 3", report, switch,
    branch]

def start : Context :=
  Context.ofList [(idKey, Value.int 12), (Counter.sharedKey, .text "shared data")]

/-- More than the demo uses. -/
def fuel : Nat := 100

def run : Exec Unit RunResult := do
  Exec.emit (.remark (.info "Starting the queueflow demo..."))
  let container ← Exec.create "demo" ⟨"test01", none, .failFast⟩
  Exec.addQueue container main
  container.execute fuel

/-- The line that tells how a run ended. -/
def summaryLine (executed : Nat) (final : Context) : String :=
  "Executed " ++ String.ofList (Digits.ofNat executed) ++ " task(s); final id = "
    ++ idText (final.getInt? idKey)

/-- What the demo shows: lines of output, and records. -/
structure Report where
  output : List String
  records : List Record
  succeeded : Bool

def isShown (r : Record) : Bool := r.severity != .debug

def result : Report :=
  match run ⟨⟨start, ()⟩, .empty, #[]⟩ with
  | .finished (.ok summary) m =>
    ⟨[summaryLine summary.executed m.context], m.log.records.filter isShown, true⟩
  | .finished (.error _) m | .blocked _ m => ⟨[], m.log.records.filter isShown, false⟩
  | .outOfFuel => ⟨[], [], false⟩

end Demo
end Workflow

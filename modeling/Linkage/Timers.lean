import Linkage.Text.Sorted

/-! Named stopwatches of one request. Instants and durations are whole milliseconds. -/

namespace Linkage

/-- The time a stopwatch has added up, and since when it is running. -/
structure Stopwatch where
  elapsed : Nat
  runningSince : Option Nat
  deriving DecidableEq, Repr

/-- The time added up at an instant. -/
def Stopwatch.readingAt (w : Stopwatch) (now : Nat) : Nat :=
  match w.runningSince with
  | some since => w.elapsed + (now - since)
  | none => w.elapsed

inductive TimerAction where
  | start
  | stop
  deriving DecidableEq, Repr

inductive TimerFault where
  | alreadyConcluded (action : TimerAction) (name : String)
  | notRunning (name : String)
  deriving DecidableEq, Repr

def TimerAction.text : TimerAction → String
  | .start => "start"
  | .stop => "stop"

/-- The attempt that a word names. Every word but the one for stopping counts as starting. -/
def TimerAction.ofText (word : String) : TimerAction :=
  if word = TimerAction.stop.text then .stop else .start

@[simp] theorem TimerAction.ofText_text (action : TimerAction) : ofText action.text = action := by
  cases action <;> rfl

def TimerFault.message : TimerFault → String
  | .alreadyConcluded action name =>
    "timers already concluded, cannot " ++ action.text ++ " \"" ++ name ++ "\""
  | .notRunning name => "timer \"" ++ name ++ "\" is not running"

/-- What can be seen of a stopwatch. -/
inductive TimerState where
  | unstarted
  | running
  | concluded
  deriving DecidableEq, Repr

abbrev Timings := List (String × Nat)

/-- Stopwatches by name, and the reading once it has been taken. -/
structure Timers where
  watches : Text.Table Stopwatch
  reading : Option Timings
  deriving DecidableEq, Repr

namespace Timers

def empty : Timers := ⟨.empty, none⟩

def started (now : Nat) (names : List String) : Timers :=
  ⟨.ofList (names.map fun name => (name, ⟨0, some now⟩)), none⟩

def watch? (t : Timers) (name : String) : Option Stopwatch := t.watches.find? name

def isConcluded (t : Timers) : Bool := t.reading.isSome

def put (t : Timers) (name : String) (w : Stopwatch) : Timers :=
  { t with watches := t.watches.put name w }

/-- Starts a stopwatch, or lets it run on. -/
def start (t : Timers) (now : Nat) (name : String) : Except TimerFault Timers :=
  if t.isConcluded then .error (.alreadyConcluded .start name)
  else
    let w := (t.watch? name).getD ⟨0, none⟩
    .ok (t.put name { w with runningSince := some (w.runningSince.getD now) })

def stop (t : Timers) (now : Nat) (name : String) : Except TimerFault Timers :=
  if t.isConcluded then .error (.alreadyConcluded .stop name)
  else
    match t.watch? name with
    | some w =>
      if w.runningSince.isSome then .ok (t.put name ⟨w.readingAt now, none⟩)
      else .error (.notRunning name)
    | none => .error (.notRunning name)

def switch (t : Timers) (now : Nat) (stopped begun : String) : Except TimerFault Timers := do
  (← t.stop now stopped).start now begun

/-- What can be seen of a stopwatch; every known one counts as concluded after the reading. -/
def state (t : Timers) (name : String) : TimerState :=
  match t.watch? name with
  | none => .unstarted
  | some w => if !t.isConcluded && w.runningSince.isSome then .running else .concluded

/-- The reading: the one taken before, or that of this instant. -/
def read (t : Timers) (now : Nat) : Timings :=
  t.reading.getD (t.watches.map fun w => w.readingAt now).entries

/-- Takes the reading, unless it has been taken. -/
def conclude (t : Timers) (now : Nat) : Timers := { t with reading := some (t.read now) }

/-- The reading, unless nothing was ever started. -/
def timings? (t : Timers) (now : Nat) : Option Timings :=
  if (t.read now).isEmpty then none else some (t.read now)

end Timers

end Linkage

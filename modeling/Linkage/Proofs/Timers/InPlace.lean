import Linkage.Proofs.Checks
import Linkage.Proofs.Timers.Clones

/-!
Starting and stopping in place.

A registry that is changed step by step keeps what it was given before a step fails. So it has to be
shown that no call fails after it has changed something: a start puts a stopwatch before it lets it
run, and a switch stops one stopwatch before it starts another.
-/

namespace Linkage

/-- Work on a registry. Where it fails, what was changed before stays changed. -/
abbrev TimerWork := EStateM TimerFault Timers Unit

namespace Timers

/-! ## Calls in place -/

/-- The stopwatch is in the registry; a new one rests at zero. -/
def ensure (t : Timers) (name : String) : Timers :=
  match t.watch? name with
  | some _ => t
  | none => t.put name ⟨0, none⟩

/-- A stopwatch that rests runs from now on. -/
def letRun (t : Timers) (now : Nat) (name : String) : Timers :=
  match t.watch? name with
  | some ⟨elapsed, none⟩ => t.put name ⟨elapsed, some now⟩
  | _ => t

def startInPlace (now : Nat) (name : String) : TimerWork := do
  if (← get).isConcluded then throw (.alreadyConcluded .start name)
  modify fun t => t.ensure name
  modify fun t => t.letRun now name

def stopInPlace (now : Nat) (name : String) : TimerWork := do
  let t ← get
  if t.isConcluded then throw (.alreadyConcluded .stop name)
  match t.watch? name with
  | some ⟨elapsed, some since⟩ => set (t.put name ⟨elapsed + (now - since), none⟩)
  | _ => throw (.notRunning name)

/-- One stopwatch is stopped at one instant, and then another is started at another. -/
def switchInPlace (stoppedAt begunAt : Nat) (stopped begun : String) : TimerWork := do
  stopInPlace stoppedAt stopped
  startInPlace begunAt begun

end Timers

namespace TimerWork

/-- The work comes out as an attempt that leaves the registry alone where it fails. -/
def Makes (work : TimerWork) (t : Timers) (attempt : Except TimerFault Timers) : Prop :=
  work.run t = match attempt with
    | .ok after => .ok () after
    | .error fault => .error fault t

/-- The work fails with the given fault, if any, and then it has changed nothing. Else it leaves the
reading as it was and the stopwatches in the given states. -/
structure IsAtomic (work : TimerWork) (t : Timers) (fault? : Option TimerFault)
    (states : String → TimerState) : Prop where
  failure : ∀ fault after, work.run t = .error fault after ↔ fault? = some fault ∧ after = t
  success : fault? = none → ∃ after, work.run t = .ok () after ∧
    after.isConcluded = t.isConcluded ∧ ∀ name, after.state name = states name

variable {work : TimerWork} {t after : Timers} {fault : TimerFault} {states : String → TimerState}
  {attempt : Except TimerFault Timers}

theorem Makes.ok (h : work.Makes t attempt) (hok : attempt = .ok after) :
    work.run t = .ok () after := by
  subst hok
  exact h

theorem Makes.error (h : work.Makes t attempt) (herror : attempt = .error fault) :
    work.run t = .error fault t := by
  subst herror
  exact h

theorem IsAtomic.failed (h : work.run t = .error fault t) :
    work.IsAtomic t (some fault) states where
  failure other after := by
    rw [h, EStateM.Result.error.injEq, Option.some.injEq, eq_comm (a := t)]
  success := nofun

theorem IsAtomic.done (h : work.run t = .ok () after) (hsame : after.isConcluded = t.isConcluded)
    (hstates : ∀ name, after.state name = states name) : work.IsAtomic t none states where
  failure other after := by simp [h]
  success _ := ⟨after, h, hsame, hstates⟩

end TimerWork

namespace Timers

variable {t : Timers}

theorem put_put (t : Timers) (name : String) (first second : Stopwatch) :
    (t.put name first).put name second = t.put name second :=
  congrArg (Timers.mk · t.reading) (t.watches.put_put name first second)

theorem put_same {name : String} {w : Stopwatch} (hwatch : t.watch? name = some w) :
    t.put name w = t :=
  congrArg (Timers.mk · t.reading) (Text.Table.put_same hwatch)

/-- Put first and let run afterwards, a stopwatch is as if it had been put running. -/
theorem letRun_ensure (t : Timers) (now : Nat) (name : String) :
    (t.ensure name).letRun now name =
      t.put name { (t.watch? name).getD ⟨0, none⟩ with
        runningSince := some (((t.watch? name).getD ⟨0, none⟩).runningSince.getD now) } := by
  cases hwatch : t.watch? name with
  | none =>
    have hput : (t.put name ⟨0, none⟩).watch? name = some ⟨0, none⟩ := by simp [watch?_put]
    simp only [ensure, letRun, hwatch, hput, put_put, Option.getD_none]
  | some w =>
    obtain ⟨elapsed, since?⟩ := w
    cases since? with
    | none => simp only [ensure, letRun, hwatch, Option.getD_some, Option.getD_none]
    | some since =>
      simp only [ensure, letRun, hwatch, Option.getD_some]
      exact (put_same hwatch).symm

theorem startInPlace_makes (t : Timers) (now : Nat) (name : String) :
    (startInPlace now name).Makes t (t.start now name) := by
  unfold TimerWork.Makes startInPlace start
  cases hconcluded : t.isConcluded with
  | true => simp [hconcluded]
  | false => simp [hconcluded, letRun_ensure]

theorem stopInPlace_makes (t : Timers) (now : Nat) (name : String) :
    (stopInPlace now name).Makes t (t.stop now name) := by
  unfold TimerWork.Makes stopInPlace stop
  cases hconcluded : t.isConcluded with
  | true => simp [hconcluded]
  | false =>
    cases hwatch : t.watch? name with
    | none => simp [hconcluded, hwatch]
    | some w =>
      obtain ⟨elapsed, since?⟩ := w
      cases since? with
      | none => simp [hconcluded, hwatch]
      | some since => simp [hconcluded, hwatch, Stopwatch.readingAt]

variable {now later : Nat} {name begun : String}

/-- A switch fails where its stop does. -/
theorem switchInPlace_of_error {fault : TimerFault} (h : t.stop now name = .error fault) :
    (switchInPlace now later name begun).run t = .error fault t := by
  have hstop := (stopInPlace_makes t now name).error h
  simp [switchInPlace, hstop]

/-- Else its start finds the registry that the stop has left. -/
theorem switchInPlace_of_ok {stopped : Timers} (h : t.stop now name = .ok stopped) :
    (switchInPlace now later name begun).run t = (startInPlace later begun).run stopped := by
  have hstop := (stopInPlace_makes t now name).ok h
  simp [switchInPlace, hstop]

/-! ## Faults -/

/-- Why a stopwatch cannot be started. -/
def startFault? (t : Timers) (name : String) : Option TimerFault :=
  if t.isConcluded then some (.alreadyConcluded .start name) else none

/-- Why a stopwatch cannot be stopped. -/
def stopFault? (t : Timers) (name : String) : Option TimerFault :=
  if t.isConcluded then some (.alreadyConcluded .stop name)
  else if t.state name = .running then none
  else some (.notRunning name)

/-- Either the stopwatch is running, or there is a fault and the stop fails with it. -/
theorem stopFault?_cases (t : Timers) (now : Nat) (name : String) :
    (t.state name = .running ∧ t.stopFault? name = none) ∨
      ∃ fault, t.stop now name = .error fault ∧ t.stopFault? name = some fault := by
  by_cases hrunning : t.state name = .running
  · have hopen := (state_eq_running.mp hrunning).1
    exact .inl ⟨hrunning, by simp [stopFault?, hopen, hrunning]⟩
  · refine .inr ?_
    cases hconcluded : t.isConcluded with
    | true => exact ⟨_, stop_concluded hconcluded now name, by simp [stopFault?, hconcluded]⟩
    | false =>
      exact ⟨_, stop_idle hconcluded hrunning now, by simp [stopFault?, hconcluded, hrunning]⟩

theorem startInPlace_atomic (t : Timers) (now : Nat) (name : String) :
    (startInPlace now name).IsAtomic t (t.startFault? name) fun other =>
      if name = other then .running else t.state other := by
  have hmakes := startInPlace_makes t now name
  cases hconcluded : t.isConcluded with
  | true =>
    rw [startFault?, if_pos hconcluded]
    exact .failed (hmakes.error (start_concluded hconcluded now name))
  | false =>
    obtain ⟨after, hstart, hopen, hstates⟩ := start_open hconcluded now name
    rw [startFault?, hconcluded, if_neg Bool.false_ne_true]
    exact .done (hmakes.ok hstart) (hopen.trans hconcluded.symm) hstates

theorem stopInPlace_atomic (t : Timers) (now : Nat) (name : String) :
    (stopInPlace now name).IsAtomic t (t.stopFault? name) fun other =>
      if name = other then .concluded else t.state other := by
  have hmakes := stopInPlace_makes t now name
  rcases t.stopFault?_cases now name with ⟨hrunning, hnone⟩ | ⟨fault, hstop, hfault⟩
  · obtain ⟨after, hstop, hopen, hstates⟩ := stop_running hrunning now
    rw [hnone]
    exact .done (hmakes.ok hstop) (hopen.trans (state_eq_running.mp hrunning).1.symm) hstates
  · rw [hfault]
    exact .failed (hmakes.error hstop)

/-- A stop that succeeds leaves an open registry, in which no start fails. -/
theorem switchInPlace_atomic (t : Timers) (now later : Nat) (name begun : String) :
    (switchInPlace now later name begun).IsAtomic t (t.stopFault? name) fun other =>
      if begun = other then .running else if name = other then .concluded else t.state other := by
  rcases t.stopFault?_cases now name with ⟨hrunning, hnone⟩ | ⟨fault, hstop, hfault⟩
  · obtain ⟨stopped, hstop, hopen, hstopped⟩ := stop_running hrunning now
    obtain ⟨after, hstart, hopen', hafter⟩ := start_open hopen later begun
    have hrun : (switchInPlace now later name begun).run t = .ok () after := by
      rw [switchInPlace_of_ok hstop]
      exact (startInPlace_makes stopped later begun).ok hstart
    rw [hnone]
    refine .done hrun (hopen'.trans (state_eq_running.mp hrunning).1.symm) fun other => ?_
    rw [hafter, hstopped]
  · rw [hfault]
    exact .failed (switchInPlace_of_error hstop)

/-- With one instant for both halves the work is the call itself. -/
theorem switchInPlace_makes (t : Timers) (now : Nat) (name begun : String) :
    (switchInPlace now now name begun).Makes t (t.switch now name begun) := by
  unfold TimerWork.Makes
  rcases t.stopFault?_cases now name with ⟨hrunning, -⟩ | ⟨fault, hstop, -⟩
  · obtain ⟨stopped, hstop, hopen, -⟩ := stop_running hrunning now
    obtain ⟨after, hstart, -, -⟩ := start_open hopen now begun
    have hswitch : t.switch now name begun = .ok after := by
      rw [switch, hstop]
      exact hstart
    rw [switchInPlace_of_ok hstop, hswitch]
    exact (startInPlace_makes stopped now begun).ok hstart
  · rw [switch_of_stop_error hstop, switchInPlace_of_error hstop]

/-- What is stopped can be started again. -/
theorem restart_atomic {stopped : Timers} (now later : Nat) (name : String)
    (hstop : (stopInPlace now name).run t = .ok () stopped) :
    (startInPlace later name).IsAtomic stopped none fun other =>
      if name = other then .running else t.state other := by
  rcases t.stopFault?_cases now name with ⟨hrunning, -⟩ | ⟨fault, hfault, -⟩
  · obtain ⟨after, hafter, hopen, hstates⟩ := stop_running hrunning now
    have hsame := ((stopInPlace_makes t now name).ok hafter).symm.trans hstop
    cases hsame
    have hatomic := startInPlace_atomic stopped later name
    have hother : (fun other => if name = other then TimerState.running else stopped.state other) =
        fun other => if name = other then .running else t.state other := by
      funext other
      by_cases hname : name = other <;> simp [hstates, hname]
    rwa [startFault?, hopen, if_neg Bool.false_ne_true, hother] at hatomic
  · cases ((stopInPlace_makes t now name).error hfault).symm.trans hstop

/-- How the calls to a registry come out when they are made in place. -/
structure ActsAtomically (t : Timers) (now later : Nat) (name begun : String) : Prop where
  start : (startInPlace now name).IsAtomic t (t.startFault? name) fun other =>
    if name = other then .running else t.state other
  stop : (stopInPlace now name).IsAtomic t (t.stopFault? name) fun other =>
    if name = other then .concluded else t.state other
  switch : (switchInPlace now later name begun).IsAtomic t (t.stopFault? name) fun other =>
    if begun = other then .running else if name = other then .concluded else t.state other
  restart : ∀ stopped, (stopInPlace now name).run t = .ok () stopped →
    (startInPlace later name).IsAtomic stopped none fun other =>
      if name = other then .running else t.state other
  /-- These are the calls of a registry. -/
  start_makes : (startInPlace now name).Makes t (t.start now name)
  stop_makes : (stopInPlace now name).Makes t (t.stop now name)
  switch_makes : (switchInPlace now now name begun).Makes t (t.switch now name begun)

end Timers

/-- **Calls are atomic.** Take any registry. A start fails exactly when the reading has been taken,
a stop also when its stopwatch is not running, and a switch exactly when its stop would, with the
same fault. What fails has changed nothing, even where it is made of steps that change the registry
one after another; what succeeds changes the states of the named stopwatches only. -/
theorem timer_calls_are_atomic (t : Timers) (now later : Nat) (name begun : String) :
    t.ActsAtomically now later name begun where
  start := t.startInPlace_atomic now name
  stop := t.stopInPlace_atomic now name
  switch := t.switchInPlace_atomic now later name begun
  restart _ := Timers.restart_atomic now later name
  start_makes := t.startInPlace_makes now name
  stop_makes := t.stopInPlace_makes now name
  switch_makes := t.switchInPlace_makes now name begun

/-- One stopwatch runs and one rests, and a clone of the registry has been read. -/
def restAndRead : List RegistryStep :=
  [.call 0 1 (.start "engine"), .call 0 3 (.stop "engine"), .clone 0, .call 1 4 .conclude]

theorem restAndRead_atomic :
    ∃ live read, Registry.program 0 ["overall"] restAndRead = [live, read] ∧
      (Timers.switchInPlace 5 6 "engine" "late").run live.timers =
        .error (.notRunning "engine") live.timers ∧
      (Timers.switchInPlace 5 6 "overall" "late").run read.timers =
        .error (.alreadyConcluded .stop "overall") read.timers ∧
      ∃ after, (Timers.switchInPlace 5 6 "overall" "overall").run live.timers = .ok () after ∧
        after.state "overall" = .running ∧ after.state "engine" = .concluded := by
  refine ⟨_, _, rfl, ?_, ?_, ?_⟩
  · exact ((timer_calls_are_atomic _ 5 6 "engine" "late").switch.failure _ _).mpr
      ⟨by decide +kernel, rfl⟩
  · exact ((timer_calls_are_atomic _ 5 6 "overall" "late").switch.failure _ _).mpr
      ⟨by decide +kernel, rfl⟩
  · have hlive := timer_calls_are_atomic (Registry.program 0 ["overall"] restAndRead)[0].timers
      5 6 "overall" "overall"
    obtain ⟨after, hrun, -, hstates⟩ := hlive.switch.success (by decide +kernel)
    exact ⟨after, hrun, hstates "overall", by rw [hstates]; decide +kernel⟩

end Linkage

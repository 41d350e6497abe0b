import Linkage.Proofs.Text.Tables
import Linkage.Timers

namespace Linkage.Timers

variable {t : Timers} {name : String}

theorem watch?_put (t : Timers) (name other : String) (w : Stopwatch) :
    (t.put name w).watch? other = if name = other then some w else t.watch? other :=
  Text.Table.find?_put t.watches name other w

@[simp] theorem isConcluded_put (t : Timers) (name : String) (w : Stopwatch) :
    (t.put name w).isConcluded = t.isConcluded := rfl

theorem state_eq_running : t.state name = .running ↔
    t.isConcluded = false ∧ ∃ w, t.watch? name = some w ∧ w.runningSince.isSome = true := by
  unfold state
  cases t.watch? name with
  | none => simp
  | some w => cases t.isConcluded <;> cases hsince : w.runningSince <;> simp [hsince]

/-- The states after a stopwatch has been put into an open registry. -/
theorem state_put (hopen : t.isConcluded = false) (other : String) (w : Stopwatch) :
    (t.put name w).state other =
      if name = other then (if w.runningSince.isSome then .running else .concluded)
      else t.state other := by
  unfold state
  rw [watch?_put, isConcluded_put, hopen]
  by_cases h : name = other <;> simp [h]

theorem start_open (hopen : t.isConcluded = false) (now : Nat) (name : String) :
    ∃ after, t.start now name = .ok after ∧ after.isConcluded = false ∧
      ∀ other, after.state other = if name = other then .running else t.state other := by
  let w := (t.watch? name).getD ⟨0, none⟩
  refine ⟨t.put name { w with runningSince := some (w.runningSince.getD now) }, ?_, hopen,
    fun other => ?_⟩
  · rw [start, hopen, if_neg Bool.false_ne_true]
  · rw [state_put hopen]
    rfl

theorem stop_running (hrunning : t.state name = .running) (now : Nat) :
    ∃ after, t.stop now name = .ok after ∧ after.isConcluded = false ∧
      ∀ other, after.state other = if name = other then .concluded else t.state other := by
  obtain ⟨hopen, w, hw, hsince⟩ := state_eq_running.mp hrunning
  refine ⟨t.put name ⟨w.readingAt now, none⟩, ?_, hopen, fun other => ?_⟩
  · simp only [stop, hopen, hw, hsince, Bool.false_eq_true, if_true, if_false]
  · rw [state_put hopen]
    rfl

theorem stop_idle (hopen : t.isConcluded = false) (hidle : t.state name ≠ .running) (now : Nat) :
    t.stop now name = .error (.notRunning name) := by
  rw [Ne, state_eq_running] at hidle
  simp only [stop, hopen, Bool.false_eq_true, if_false]
  cases hw : t.watch? name with
  | none => rfl
  | some w =>
    have hsince : ¬ w.runningSince.isSome = true := fun h => hidle ⟨hopen, w, hw, h⟩
    simp only [if_neg hsince]

theorem switch_running (hrunning : t.state name = .running) (now : Nat) (begun : String) :
    ∃ after, t.switch now name begun = .ok after ∧ after.isConcluded = false ∧
      ∀ other, after.state other = if begun = other then .running
        else if name = other then .concluded else t.state other := by
  obtain ⟨stopped, hstop, hopen, hstopped⟩ := stop_running hrunning now
  obtain ⟨after, hstart, hopen', hafter⟩ := start_open hopen now begun
  refine ⟨after, ?_, hopen', fun other => ?_⟩
  · rw [switch, hstop]
    exact hstart
  · rw [hafter, hstopped]

theorem switch_of_stop_error {fault : TimerFault} {now : Nat} (h : t.stop now name = .error fault)
    (begun : String) : t.switch now name begun = .error fault := by
  rw [switch, h]
  rfl

theorem switch_idle (hopen : t.isConcluded = false) (hidle : t.state name ≠ .running) (now : Nat)
    (begun : String) : t.switch now name begun = .error (.notRunning name) :=
  switch_of_stop_error (stop_idle hopen hidle now) begun

/-! ## Once the reading has been taken -/

theorem start_concluded (h : t.isConcluded = true) (now : Nat) (name : String) :
    t.start now name = .error (.alreadyConcluded .start name) := by
  rw [start, if_pos h]

theorem stop_concluded (h : t.isConcluded = true) (now : Nat) (name : String) :
    t.stop now name = .error (.alreadyConcluded .stop name) := by
  rw [stop, if_pos h]

theorem switch_concluded (h : t.isConcluded = true) (now : Nat) (name begun : String) :
    t.switch now name begun = .error (.alreadyConcluded .stop name) :=
  switch_of_stop_error (stop_concluded h now name) begun

theorem state_conclude (t : Timers) (now : Nat) (name : String) :
    (t.conclude now).state name = if t.state name = .unstarted then .unstarted else .concluded := by
  have hwatch : (t.conclude now).watch? name = t.watch? name := rfl
  have hconcluded : (t.conclude now).isConcluded = true := rfl
  rw [state, hwatch, hconcluded, state]
  cases t.watch? name with
  | none => rfl
  | some w =>
    by_cases hrunning : (!t.isConcluded && w.runningSince.isSome) = true <;> simp [hrunning]

/-! ## Known stopwatches -/

/-- A stopwatch that is in the registry has been started. -/
theorem state_ne_unstarted : t.state name ≠ .unstarted ↔ name ∈ t.watches.keys := by
  rw [← Text.Table.isSome_find?, ← watch?, state]
  cases t.watch? name with
  | none => simp
  | some w => cases t.isConcluded <;> cases hsince : w.runningSince <;> simp [hsince]

/-- A registry knows those that it was started with. -/
theorem state_started (now : Nat) (names : List String) :
    (started now names).state name ≠ .unstarted ↔ name ∈ names := by
  rw [state_ne_unstarted, started, Text.Table.mem_keys_ofList]
  simp

/-- A reading that is taken now lists the stopwatches that have been started. -/
theorem mem_read (hopen : t.isConcluded = false) (now : Nat) (name : String) :
    name ∈ (t.read now).map (·.1) ↔ t.state name ≠ .unstarted := by
  have hnone : t.reading = none := by simpa [isConcluded] using hopen
  rw [state_ne_unstarted, read, hnone, Option.getD_none, ← Text.Table.keys,
    Text.Table.keys_map]

/-! ## More stopwatches -/

/-- Beside those that a registry knows these have become known, and the reading has not been
taken. -/
structure Grows (t : Timers) (names : List String) (after : Timers) : Prop where
  isOpen : after.isConcluded = false
  known : ∀ name, after.state name ≠ .unstarted ↔ t.state name ≠ .unstarted ∨ name ∈ names

namespace Grows

variable {later after : Timers} {names more : List String}

theorem refl (hopen : t.isConcluded = false) : t.Grows [] t :=
  ⟨hopen, fun _ => (or_iff_left List.not_mem_nil).symm⟩

theorem trans (h : t.Grows names after) (h' : after.Grows more later) :
    t.Grows (names ++ more) later := by
  refine ⟨h'.isOpen, fun name => ?_⟩
  rw [h'.known, h.known, List.mem_append, or_assoc]

theorem start (hopen : after.isConcluded = false)
    (h : ∀ other, after.state other = if name = other then .running else t.state other) :
    t.Grows [name] after := by
  refine ⟨hopen, fun other => ?_⟩
  rw [h, List.mem_singleton]
  by_cases hname : name = other
  · simp [hname]
  · simp [hname, Ne.symm hname]

/-- What is stopped was running, so it was known. -/
theorem stop (hrunning : t.state name = .running) (hopen : after.isConcluded = false)
    (h : ∀ other, after.state other = if name = other then .concluded else t.state other) :
    t.Grows [] after := by
  refine ⟨hopen, fun other => ?_⟩
  rw [h, or_iff_left List.not_mem_nil]
  by_cases hname : name = other
  · simp [← hname, hrunning]
  · simp [hname]

end Grows

end Linkage.Timers

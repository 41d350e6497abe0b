import Linkage.Proofs.Timers.Runs

namespace Linkage

/-- A registry of stopwatches, and all that it was asked, as its original too before it was cloned
from that. -/
structure Registry where
  timers : Timers
  log : TimerLog

namespace Registry

/-- A new registry in which some names are running. -/
def started (began : Nat) (names : List String) : Registry := ⟨Timers.started began names, []⟩

def ask (r : Registry) (now : Nat) (c : TimerCall) : Registry :=
  ⟨(r.timers.perform now c).2, r.log ++ [(c, (r.timers.perform now c).1)]⟩

def askAll (r : Registry) (calls : List (Nat × TimerCall)) : Registry :=
  ⟨r.timers.run calls, r.log ++ r.timers.log calls⟩

theorem askAll_nil (r : Registry) : r.askAll [] = r := by
  simp [askAll, Timers.log]

theorem askAll_cons (r : Registry) (now : Nat) (c : TimerCall) (rest : List (Nat × TimerCall)) :
    r.askAll ((now, c) :: rest) = (r.ask now c).askAll rest := by
  simp [askAll, ask, Timers.log]

end Registry

/-- What a program does with the registries that it has: it calls one of them at an instant, or
clones one. The clone comes after all others. -/
inductive RegistryStep where
  | call (index now : Nat) (c : TimerCall)
  | clone (index : Nat)

namespace RegistryStep

def apply (all : List Registry) : RegistryStep → List Registry
  | .call index now c => all.modify index fun r => r.ask now c
  | .clone index => all ++ all[index]?.toList

/-- The call that a step makes to a registry. -/
def callTo? (index : Nat) : RegistryStep → Option (Nat × TimerCall)
  | .call i now c => if i = index then some (now, c) else none
  | .clone _ => none

end RegistryStep

namespace Registry

/-- The registries after a program. -/
def after (all : List Registry) (steps : List RegistryStep) : List Registry :=
  steps.foldl RegistryStep.apply all

variable {all : List Registry} {index : Nat} {r : Registry}

/-- A step changes a registry by the call that it makes to it, and not otherwise. -/
theorem registry_apply (h : all[index]? = some r) (step : RegistryStep) :
    (step.apply all)[index]? = some (r.askAll (step.callTo? index).toList) := by
  cases step with
  | call i now c =>
    rw [RegistryStep.apply, RegistryStep.callTo?, List.getElem?_modify, h]
    by_cases hi : i = index
    · simp [hi, askAll_cons, askAll_nil]
    · simp [hi, askAll_nil]
  | clone i =>
    have hbound : index < all.length := (List.getElem?_eq_some_iff.mp h).1
    rw [RegistryStep.apply, List.getElem?_append_left hbound, h]
    simp [RegistryStep.callTo?, askAll_nil]

/-- Calls to other registries, and clones of this one or of others, make no difference. -/
theorem registry_after (h : all[index]? = some r) (steps : List RegistryStep) :
    (after all steps)[index]? =
      some (r.askAll (steps.filterMap (RegistryStep.callTo? index))) := by
  induction steps generalizing all r with
  | nil =>
    rw [List.filterMap_nil, askAll_nil]
    exact h
  | cons step rest ih =>
    have hrest := ih (registry_apply h step)
    rw [after, List.foldl_cons]
    refine hrest.trans (congrArg some ?_)
    cases hcall : step.callTo? index with
    | none => rw [List.filterMap_cons_none hcall, Option.toList_none, askAll_nil]
    | some call =>
      obtain ⟨now, c⟩ := call
      rw [List.filterMap_cons_some hcall, askAll_cons, Option.toList_some, askAll_cons, askAll_nil]

/-- What calls keep holds of every registry of a program: of clones too, as it held of their
originals. -/
theorem forall_after {P : Registry → Prop} (hask : ∀ r now c, P r → P (r.ask now c))
    (hall : ∀ r ∈ all, P r) (steps : List RegistryStep) : ∀ r ∈ after all steps, P r := by
  induction steps generalizing all with
  | nil => exact hall
  | cons step rest ih =>
    apply ih
    intro r hr
    cases step with
    | call i now c =>
      obtain ⟨index, hindex⟩ := List.mem_iff_getElem?.mp hr
      rw [RegistryStep.apply, List.getElem?_modify] at hindex
      obtain ⟨before, hbefore, rfl⟩ := Option.map_eq_some_iff.mp hindex
      have hP : P before := hall before (List.mem_of_getElem? hbefore)
      by_cases hi : i = index
      · simpa [hi] using hask before now c hP
      · simpa [hi] using hP
    | clone i =>
      rcases List.mem_append.mp hr with hr | hr
      · exact hall r hr
      · exact hall r (List.mem_of_getElem? (Option.mem_toList.mp hr))

/-- The registries of a program that begins with one in which some names are running. -/
def program (began : Nat) (names : List String) (steps : List RegistryStep) : List Registry :=
  after [started began names] steps

theorem program_log (began : Nat) (names : List String) (steps : List RegistryStep) :
    ∀ r ∈ program began names steps, ∃ calls, r = (started began names).askAll calls := by
  apply forall_after
  · rintro _ now c ⟨calls, rfl⟩
    refine ⟨calls ++ [(now, c)], ?_⟩
    simp [askAll, ask, Timers.run_append, Timers.log_append, Timers.log]
  · intro r hr
    refine ⟨[], ?_⟩
    rw [List.mem_singleton.mp hr, askAll_nil]

/-- A registry comes out of some steps as `r` does when it is asked what these steps ask of that
registry, and nothing else. -/
def GoesOnAs (all : List Registry) (index : Nat) (r : Registry) : Prop :=
  ∀ steps : List RegistryStep,
    (after all steps)[index]? = some (r.askAll (steps.filterMap (RegistryStep.callTo? index)))

theorem goesOnAs_self (h : all[index]? = some r) : GoesOnAs all index r := registry_after h

theorem goesOnAs_clone (h : all[index]? = some r) :
    GoesOnAs ((RegistryStep.clone index).apply all) all.length r := by
  intro steps
  apply registry_after
  simp [RegistryStep.apply, h]

end Registry

/-- **Frozen timings stay frozen.** Take any program that begins with one registry, in which some
names are running, and calls and clones registries. From the first call that takes the reading of a
registry on, or of the original that it was cloned from, everything that this registry answers
follows from that reading. And after a clone both it and its original go on as the original would
have, each with the calls that are made to it. -/
theorem timings_stay_frozen (began : Nat) (names : List String) (steps : List RegistryStep) :
    (∀ r ∈ Registry.program began names steps, StaysFrozen names r.log) ∧
    ∀ (index : Nat) (original : Registry),
      (Registry.program began names steps)[index]? = some original →
      Registry.GoesOnAs ((RegistryStep.clone index).apply (Registry.program began names steps))
        (Registry.program began names steps).length original ∧
      Registry.GoesOnAs ((RegistryStep.clone index).apply (Registry.program began names steps))
        index original := by
  constructor
  · intro r hr
    obtain ⟨calls, rfl⟩ := Registry.program_log began names steps r hr
    exact log_staysFrozen began names calls
  · intro index original horiginal
    refine ⟨Registry.goesOnAs_clone horiginal, Registry.goesOnAs_self ?_⟩
    have hsame := Registry.registry_apply horiginal (.clone index)
    rwa [RegistryStep.callTo?, Option.toList_none, Registry.askAll_nil] at hsame

/-- A stopwatch is started beside the one that is running, the registry is cloned and read, and the
clone goes on until it is read too. -/
def readTwice : List RegistryStep :=
  [.call 0 2 (.start "engine"), .clone 0, .call 0 5 .isEmpty, .call 1 6 (.stop "engine"),
    .call 0 7 (.start "late"), .call 1 8 .timings, .call 0 9 .conclude, .call 1 9 (.state "late")]

theorem readTwice_stays_frozen :
    ∃ original copy, Registry.program 0 ["overall"] readTwice = [original, copy] ∧
      original.log = [(.start "engine", .done), (.isEmpty, .isEmpty false),
        (.start "late", .refused (.alreadyConcluded .start "late")),
        (.conclude, .reading [("engine", 3), ("overall", 5)])] ∧
      copy.log = [(.start "engine", .done), (.stop "engine", .done),
        (.timings, .timings (some [("engine", 4), ("overall", 8)])),
        (.state "late", .state .unstarted)] ∧
      StaysFrozen ["overall"] original.log ∧ StaysFrozen ["overall"] copy.log := by
  have hall := (timings_stay_frozen 0 ["overall"] readTwice).1
  refine ⟨_, _, rfl, rfl, rfl, ?_, ?_⟩
  · exact hall _ List.mem_cons_self
  · exact hall _ (List.mem_cons_of_mem _ List.mem_cons_self)

end Linkage

import Linkage.Envelope
import Linkage.Proofs.Timers.Steps

/-!
What a registry of stopwatches answers, call after call.

* `Timers.perform`: a call and its answer. Four calls take the reading.
* `Timers.IsFrozen`, `perform_reads`, `perform_frozen`: the call that takes the reading freezes the
  registry, and no call changes it after that.
* `StaysFrozen`: a log in which everything from the first reading on follows from that reading.
-/

namespace Linkage

/-- What a registry of stopwatches can be asked. -/
inductive TimerCall where
  | start (name : String)
  | stop (name : String)
  | switch (stopped begun : String)
  | state (name : String)
  | conclude
  | timings
  | isEmpty
  | serialize
  deriving DecidableEq, Repr

inductive TimerAnswer where
  | done
  | refused (fault : TimerFault)
  | state (state : TimerState)
  | reading (timings : Timings)
  | timings (timings? : Option Timings)
  | isEmpty (empty : Bool)
  | written (value : Json.Value)

namespace TimerCall

/-- A call that takes the reading, unless it has been taken. -/
def reads : TimerCall → Bool
  | .conclude => true
  | .timings => true
  | .isEmpty => true
  | .serialize => true
  | _ => false

/-- The name that a call starts, if it is not refused. -/
def begun? : TimerCall → Option String
  | .start name => some name
  | .switch _ begun => some begun
  | _ => none

/-- What a call is answered once the reading `m` has been taken. -/
def frozenAnswer (m : Timings) : TimerCall → TimerAnswer
  | .start name => .refused (.alreadyConcluded .start name)
  | .stop name => .refused (.alreadyConcluded .stop name)
  | .switch stopped _ => .refused (.alreadyConcluded .stop stopped)
  | .state name => .state (if name ∈ m.map (·.1) then .concluded else .unstarted)
  | .conclude => .reading m
  | .timings => .timings (if m.isEmpty then none else some m)
  | .isEmpty => .isEmpty m.isEmpty
  | .serialize => .written (ResponseInfo.timingsValue m)

end TimerCall

/-- Calls with their answers. -/
abbrev TimerLog := List (TimerCall × TimerAnswer)

/-- A name runs from the beginning, or a call that begins it succeeds. -/
def TimerLog.EverStarted (names : List String) (log : TimerLog) (name : String) : Prop :=
  name ∈ names ∨ ∃ e ∈ log, e.1.begun? = some name ∧ e.2 = .done

namespace Timers

/-- Carries out an attempt, or leaves the registry as it is. -/
def attempt (t : Timers) : Except TimerFault Timers → TimerAnswer × Timers
  | .ok after => (.done, after)
  | .error fault => (.refused fault, t)

/-- Makes a call: its answer, and the registry after it. -/
def perform (t : Timers) (now : Nat) : TimerCall → TimerAnswer × Timers
  | .start name => t.attempt (t.start now name)
  | .stop name => t.attempt (t.stop now name)
  | .switch stopped begun => t.attempt (t.switch now stopped begun)
  | .state name => (.state (t.state name), t)
  | .conclude => (.reading (t.read now), t.conclude now)
  | .timings => (.timings (t.timings? now), t.conclude now)
  | .isEmpty => (.isEmpty (t.timings? now).isNone, t.conclude now)
  | .serialize => (.written (ResponseInfo.timingsValue (t.read now)), t.conclude now)

/-- The registry after some calls, each made at an instant. -/
def run (t : Timers) (calls : List (Nat × TimerCall)) : Timers :=
  calls.foldl (fun t c => (t.perform c.1 c.2).2) t

/-- The calls with their answers. -/
def log (t : Timers) : List (Nat × TimerCall) → TimerLog
  | [] => []
  | (now, c) :: rest => (c, (t.perform now c).1) :: log (t.perform now c).2 rest

@[simp] theorem run_nil (t : Timers) : t.run [] = t := rfl

@[simp] theorem run_cons (t : Timers) (now : Nat) (c : TimerCall) (rest : List (Nat × TimerCall)) :
    t.run ((now, c) :: rest) = (t.perform now c).2.run rest := rfl

theorem run_append (t : Timers) (a b : List (Nat × TimerCall)) :
    t.run (a ++ b) = (t.run a).run b := List.foldl_append

theorem log_append (t : Timers) (a b : List (Nat × TimerCall)) :
    t.log (a ++ b) = t.log a ++ (t.run a).log b := by
  induction a generalizing t with
  | nil => rfl
  | cons c rest ih =>
    obtain ⟨now, c⟩ := c
    simp only [List.cons_append, log, run_cons, ih]

/-- Where a log can be split, its calls can. -/
theorem log_eq_append {t : Timers} {calls : List (Nat × TimerCall)} {before rest : TimerLog}
    (h : t.log calls = before ++ rest) :
    ∃ a b, t.log a = before ∧ (t.run a).log b = rest := by
  induction before generalizing t calls with
  | nil => exact ⟨[], calls, rfl, h⟩
  | cons e before ih =>
    cases calls with
    | nil => cases h
    | cons c calls =>
      obtain ⟨now, c⟩ := c
      obtain ⟨he, hrest⟩ := List.cons.inj h
      obtain ⟨a, b, ha, hb⟩ := ih hrest
      refine ⟨(now, c) :: a, b, ?_, hb⟩
      rw [log, he, ha]

variable {t : Timers} {now : Nat} {c : TimerCall} {m : Timings}

/-! ## Before the reading -/

/-- Before the reading is taken, a call starts the name that it begins unless it is refused, and no
other call makes a name known. -/
theorem perform_open (hopen : t.isConcluded = false) (hc : c.reads = false) (now : Nat) :
    (t.perform now c).2.isConcluded = false ∧
      ∀ name, (t.perform now c).2.state name ≠ .unstarted ↔
        t.state name ≠ .unstarted ∨
          (c.begun? = some name ∧ (t.perform now c).1 = .done) := by
  cases c with
  | start begun =>
    obtain ⟨after, hstart, hopen', hstate⟩ := start_open hopen now begun
    simp only [perform, attempt, hstart]
    refine ⟨hopen', fun name => ?_⟩
    by_cases h : begun = name <;> simp [hstate, h, TimerCall.begun?]
  | stop stopped =>
    by_cases hrunning : t.state stopped = .running
    · obtain ⟨after, hstop, hopen', hstate⟩ := stop_running hrunning now
      simp only [perform, attempt, hstop]
      refine ⟨hopen', fun name => ?_⟩
      by_cases h : stopped = name
      · subst h
        simp [hstate, hrunning]
      · simp [hstate, h, TimerCall.begun?]
    · simp [perform, attempt, stop_idle hopen hrunning, hopen]
  | switch stopped begun =>
    by_cases hrunning : t.state stopped = .running
    · obtain ⟨after, hswitch, hopen', hstate⟩ := switch_running hrunning now begun
      simp only [perform, attempt, hswitch]
      refine ⟨hopen', fun name => ?_⟩
      by_cases hb : begun = name
      · simp [hstate, hb, TimerCall.begun?]
      · by_cases hs : stopped = name
        · subst hs
          simp [hstate, hb, hrunning]
        · simp [hstate, hb, hs, TimerCall.begun?]
    · simp [perform, attempt, switch_idle hopen hrunning, hopen]
  | state name => simp [perform, hopen, TimerCall.begun?]
  | conclude | timings | isEmpty | serialize => cases hc

/-- As long as nobody takes the reading, exactly those are known that have been started. -/
theorem run_open (hopen : t.isConcluded = false) {calls : List (Nat × TimerCall)}
    (hcalls : ∀ e ∈ t.log calls, e.1.reads = false) :
    (t.run calls).isConcluded = false ∧
      ∀ name, (t.run calls).state name ≠ .unstarted ↔
        t.state name ≠ .unstarted ∨
          ∃ e ∈ t.log calls, e.1.begun? = some name ∧ e.2 = .done := by
  induction calls generalizing t with
  | nil => simp [hopen, log]
  | cons c rest ih =>
    obtain ⟨now, c⟩ := c
    rw [log, List.forall_mem_cons] at hcalls
    obtain ⟨hopen', hstep⟩ := perform_open hopen hcalls.1 now
    obtain ⟨hend, hrest⟩ := ih hopen' hcalls.2
    refine ⟨hend, fun name => ?_⟩
    rw [run_cons, hrest, hstep, or_assoc]
    simp only [log, List.mem_cons, exists_eq_or_imp]

/-! ## From the reading on -/

/-- The reading `m` has been taken, and the names in it are the known ones. -/
structure IsFrozen (t : Timers) (m : Timings) : Prop where
  reading : t.reading = some m
  state : ∀ name, t.state name = if name ∈ m.map (·.1) then .concluded else .unstarted

theorem IsFrozen.read (h : t.IsFrozen m) (now : Nat) : t.read now = m := by
  rw [Timers.read, h.reading, Option.getD_some]

theorem IsFrozen.conclude (h : t.IsFrozen m) (now : Nat) : t.conclude now = t := by
  rw [Timers.conclude, h.read, ← h.reading]

/-- The call that takes the reading is answered from it, as all later ones are. -/
theorem perform_reads (hc : c.reads = true) (t : Timers) (now : Nat) :
    t.perform now c = (c.frozenAnswer (t.read now), t.conclude now) := by
  cases c with
  | start | stop | switch | state => cases hc
  | conclude | timings | serialize => rfl
  | isEmpty =>
    simp only [perform, timings?, TimerCall.frozenAnswer]
    cases (t.read now).isEmpty <;> rfl

theorem conclude_isFrozen (hopen : t.isConcluded = false) (now : Nat) :
    (t.conclude now).IsFrozen (t.read now) where
  reading := rfl
  state name := by
    have hknown := mem_read hopen now name
    rw [state_conclude]
    by_cases h : t.state name = .unstarted <;> simp [hknown, h]

/-- Nothing changes a registry once its reading has been taken. -/
theorem perform_frozen (h : t.IsFrozen m) (now : Nat) (c : TimerCall) :
    t.perform now c = (c.frozenAnswer m, t) := by
  have hconcluded : t.isConcluded = true := by rw [isConcluded, h.reading]; rfl
  cases hc : c.reads with
  | true => rw [perform_reads hc, h.read, h.conclude]
  | false =>
    cases c with
    | start name => simp only [perform, attempt, start_concluded hconcluded]; rfl
    | stop name => simp only [perform, attempt, stop_concluded hconcluded]; rfl
    | switch stopped begun => simp only [perform, attempt, switch_concluded hconcluded]; rfl
    | state name => simp only [perform, h.state]; rfl
    | conclude | timings | isEmpty | serialize => cases hc

theorem log_frozen (h : t.IsFrozen m) (calls : List (Nat × TimerCall)) :
    ∀ e ∈ t.log calls, e.2 = e.1.frozenAnswer m := by
  induction calls with
  | nil => exact nofun
  | cons c rest ih =>
    obtain ⟨now, c⟩ := c
    rw [log, perform_frozen h, List.forall_mem_cons]
    exact ⟨rfl, ih⟩

end Timers

/-! ## A whole log -/

/-- What follows from a reading `m` that is taken after the calls `before`: all answers, the names
in it, and that no name is started any more. -/
structure FollowsReading (names : List String) (before rest : TimerLog) (m : Timings) : Prop where
  answers : ∀ e ∈ rest, e.2 = e.1.frozenAnswer m
  keys : ∀ name, name ∈ m.map (·.1) ↔ before.EverStarted names name
  later : ∀ name, TimerLog.EverStarted names (before ++ rest) name ↔ before.EverStarted names name
  empty : m.isEmpty ↔ ∀ name, ¬ TimerLog.EverStarted names (before ++ rest) name

/-- From the first call that takes the reading on, everything follows from that reading. -/
def StaysFrozen (names : List String) (log : TimerLog) : Prop :=
  ∀ before first rest, log = before ++ first :: rest → first.1.reads = true →
    (∀ e ∈ before, e.1.reads = false) → ∃ m, FollowsReading names before (first :: rest) m

/-- An answer that follows from a reading is never that a name has been started. -/
theorem not_begun_frozen {m : Timings} {c : TimerCall} {name : String}
    (hc : c.begun? = some name) : c.frozenAnswer m ≠ .done := by
  cases c with
  | start | switch => exact nofun
  | stop | state | conclude | timings | isEmpty | serialize => cases hc

theorem everStarted_append {names : List String} {before rest : TimerLog} {m : Timings}
    (h : ∀ e ∈ rest, e.2 = e.1.frozenAnswer m) (name : String) :
    TimerLog.EverStarted names (before ++ rest) name ↔ before.EverStarted names name := by
  constructor
  · rintro (hname | ⟨e, he, hbegun, hdone⟩)
    · exact .inl hname
    · rcases List.mem_append.mp he with he | he
      · exact .inr ⟨e, he, hbegun, hdone⟩
      · exact absurd ((h e he).symm.trans hdone) (not_begun_frozen hbegun)
  · rintro (hname | ⟨e, he, hbegun, hdone⟩)
    · exact .inl hname
    · exact .inr ⟨e, List.mem_append_left _ he, hbegun, hdone⟩

theorem followsReading_log {names : List String} {before : TimerLog} {t : Timers}
    (hopen : t.isConcluded = false)
    (hknown : ∀ name, t.state name ≠ .unstarted ↔ before.EverStarted names name) {c : TimerCall}
    (hc : c.reads = true) (now : Nat) (rest : List (Nat × TimerCall)) :
    FollowsReading names before (t.log ((now, c) :: rest)) (t.read now) := by
  have hanswers : ∀ e ∈ t.log ((now, c) :: rest), e.2 = e.1.frozenAnswer (t.read now) := by
    rw [Timers.log, Timers.perform_reads hc, List.forall_mem_cons]
    exact ⟨rfl, Timers.log_frozen (Timers.conclude_isFrozen hopen now) rest⟩
  have hkeys (name : String) :
      name ∈ (t.read now).map (·.1) ↔ before.EverStarted names name := by
    rw [Timers.mem_read hopen, hknown]
  refine ⟨hanswers, hkeys, everStarted_append hanswers, ?_⟩
  simp only [everStarted_append hanswers, ← hkeys]
  simp [List.eq_nil_iff_forall_not_mem]

theorem log_staysFrozen (began : Nat) (names : List String) (calls : List (Nat × TimerCall)) :
    StaysFrozen names ((Timers.started began names).log calls) := by
  intro before first rest hlog hfirst hbefore
  obtain ⟨a, b, rfl, hb⟩ := Timers.log_eq_append hlog
  obtain ⟨hopen, hknown⟩ := Timers.run_open rfl hbefore
  cases b with
  | nil => cases hb
  | cons c b =>
    obtain ⟨now, c⟩ := c
    have hcall : c = first.1 := congrArg Prod.fst (List.cons.inj hb).1
    rw [← hb]
    refine ⟨_, followsReading_log hopen (fun name => ?_) (hcall ▸ hfirst) now b⟩
    rw [hknown, Timers.state_started]
    rfl

end Linkage

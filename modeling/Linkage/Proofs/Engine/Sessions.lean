import Linkage.Proofs.Engine.Answers

/-!
What calls leave in a session, one after another.

* `Call.checks`: what a call makes sure of, in order; `answer_follows`: its answer obeys them.
* `Session.callAll`: calls with one buffer; `complete_eq`: what was in it makes no difference.
* `sessions_tell_each_call`: what is in the session after each call of a run.
-/

namespace Linkage

/-- One thing that a call makes sure of before it is answered. -/
inductive Check where
  /-- An entity is known. -/
  | entity (id : Int64)
  /-- A record belongs to some entity. -/
  | record (r : Record)
  /-- A text lists identifiers. -/
  | identifiers (argument text : String)
  /-- A text lists sources. -/
  | sources (argument text : String)

namespace Check

def Passes (g : Graph) : Check → Prop
  | .entity id => id ∈ g.fixture.ids
  | .record r => ∃ e ∈ g.fixture.entities, r ∈ e.records
  | .identifiers _ text => ∃ list, IdentifierList.ofText? text = some list
  | .sources _ text => ∃ list, SourceList.ofText? text = some list

/-- What a call reports when the check fails; the reader of a list words why it is none. -/
def fault (wording : Json.Wording) : Check → EngineFault
  | .entity id => .unknownEntity id
  | .record r => .unknownRecord r
  | .identifiers argument text => .invalidArgument (argument ++ ": " ++ wording .identifiers text)
  | .sources argument text => .invalidArgument (argument ++ ": " ++ wording .sources text)

/-- The code that a call reports when the check fails. -/
def code : Check → Int32
  | .entity _ => 37
  | .record _ => 33
  | .identifiers _ _ => 7
  | .sources _ _ => 7

theorem fault_code (wording : Json.Wording) (check : Check) :
    (check.fault wording).code = check.code := by
  cases check <;> rfl

end Check

/-- Entities before records, each in the order of the list. -/
def IdentifierList.checks (list : IdentifierList) : List Check :=
  list.entities.map .entity ++ list.records.map .record

/-- A text that is to list identifiers, and what it lists if it does. -/
def Check.listed (argument text : String) : List Check :=
  .identifiers argument text :: ((IdentifierList.ofText? text).map IdentifierList.checks).getD []

def Endpoints.checks : Endpoints → List Check
  | .records a b => [.record a, .record b]
  | .entities a b => [.entity a, .entity b]

def PathFilter.checks : PathFilter → List Check
  | .unfiltered => []
  | .excluding excluded _ => Check.listed "excluded" excluded
  | .includingSource excluded sources _ =>
    Check.listed "excluded" excluded ++ [.sources "required sources" sources]

/-- What a call makes sure of, in this order. -/
def Call.checks : Call → List Check
  | .path ends _ filter => ends.checks ++ filter.checks
  | .network _ members _ _ _ => Check.listed "entity list" members

/-! ## The first check that fails -/

/-- A computation that makes these checks on a graph, one after another. -/
abbrev Follows {α : Type} (g : Graph) (wording : Json.Wording) (checks : List Check)
    (x : Except EngineFault α) : Prop :=
  Obeys (Check.Passes g) (Check.fault wording) checks x

namespace Graph

variable (g : Graph) (wording : Json.Wording)

theorem requireEntity_follows (id : Int64) :
    Follows g wording [.entity id] (g.requireEntity id) := by
  refine Obeys.found g.entity?_isSome ?_ ?_
  · intro e he
    exact ⟨id, by rw [requireEntity, he]⟩
  · intro h
    rw [requireEntity, h]
    rfl

theorem requireRecord_follows (r : Record) :
    Follows g wording [.record r] (g.requireRecord r) := by
  have howned : (g.ownerOf? r).isSome ↔ ∃ e ∈ g.fixture.entities, r ∈ e.records := by
    simp [ownerOf?, List.find?_isSome]
  refine Obeys.found howned ?_ ?_
  · intro id hid
    exact ⟨id, by rw [requireRecord, hid]⟩
  · intro h
    rw [requireRecord, h]
    rfl

theorem argument_follows {α : Type} {check : Check} {name reason : String} {list? : Option α}
    (hpasses : (∃ list, list? = some list) ↔ check.Passes g)
    (hfault : check.fault wording = .invalidArgument (name ++ ": " ++ reason)) :
    Follows g wording [check] (argument name reason list?) := by
  refine Obeys.found (Option.isSome_iff_exists.trans hpasses) ?_ ?_
  · intro list hlist
    exact ⟨list, argument_ok.mpr hlist⟩
  · intro h
    rw [h, hfault]
    rfl

theorem requireEnds_follows (ends : Endpoints) :
    Follows g wording ends.checks (g.requireEnds ends) := by
  cases ends with
  | records a b =>
    exact (g.requireRecord_follows wording a).bind fun origin _ =>
      (g.requireRecord_follows wording b).andThen fun target => (origin, target)
  | entities a b =>
    exact (g.requireEntity_follows wording a).bind fun origin _ =>
      (g.requireEntity_follows wording b).andThen fun target => (origin, target)

theorem requireAll_follows (list : IdentifierList) :
    Follows g wording list.checks (g.requireAll list) :=
  (Obeys.mapM (g.requireEntity_follows wording) list.entities).bind fun entities _ =>
    (Obeys.mapM (g.requireRecord_follows wording) list.records).andThen
      fun owners => entities ++ owners

/-- The text of a list is read before anything in it is looked up. -/
theorem listed_follows (name text : String) :
    Follows g wording (Check.listed name text)
      (argument name (wording .identifiers text) (IdentifierList.ofText? text) >>=
        g.requireAll) := by
  have htext : Follows g wording [.identifiers name text]
      (argument name (wording .identifiers text) (IdentifierList.ofText? text)) :=
    g.argument_follows wording Iff.rfl rfl
  apply htext.bind
  intro list hlist
  rw [argument_ok.mp hlist]
  exact g.requireAll_follows wording list

theorem rules_follows (filter : PathFilter) :
    Follows g wording filter.checks (g.rules filter wording) := by
  cases filter with
  | unfiltered => exact .ok _
  | excluding excluded flags =>
    exact (g.listed_follows wording "excluded" excluded).andThen
      fun avoided => (⟨avoided, prefersExclude flags, none⟩ : PathRules)
  | includingSource excluded sources flags =>
    have hsources : Follows g wording [.sources "required sources" sources]
        (argument "required sources" (wording .sources sources) (SourceList.ofText? sources)) :=
      g.argument_follows wording Iff.rfl rfl
    exact (g.listed_follows wording "excluded" excluded).bind fun avoided _ =>
      hsources.andThen
        fun required => (⟨avoided, prefersExclude flags, some required⟩ : PathRules)

/-- The answer to a call follows its checks. -/
theorem answer_follows (c : Call) : Follows g wording c.checks (g.answer c wording) := by
  cases c with
  | path ends maxDegrees filter =>
    exact (g.requireEnds_follows wording ends).bind fun found _ =>
      (g.rules_follows wording filter).andThen
        fun rules => g.describePath found.1 found.2 maxDegrees rules
  | network kind members maxDegrees rounds limit =>
    have hlist := (g.listed_follows wording "entity list" members).andThen
      fun ids => g.describeNetwork ids maxDegrees rounds limit
    rwa [bind_assoc] at hlist

end Graph

/-! ## Call after call -/

namespace Session

/-- What was in a session makes no difference to how a call is finished. -/
theorem complete_eq (s s' : Session) (answer : Except EngineFault Document) :
    s.complete answer = s'.complete answer := by
  cases answer with
  | ok d => rw [complete_ok, complete_ok]
  | error fault => rw [complete_error, complete_error]

/-- The status and the session after each of some calls. -/
def callAll (g : Graph) (wording : Json.Wording) (s : Session) : List Call → List (Int32 × Session)
  | [] => []
  | c :: rest => s.call g c wording :: callAll g wording (s.call g c wording).2 rest

end Session

section

variable (g : Graph) (wording : Json.Wording)

/-- The status and the session after a call that passes all its checks. -/
structure CallSucceeds (c : Call) (status : Int32) (s : Session) : Prop where
  passed : ∀ check ∈ c.checks, check.Passes g
  status : status = 0
  buffer : ∃ d, g.answer c wording = .ok d ∧ s.buffer = d.text
  code : s.code = 0
  diagnostic : s.diagnostic = ""

/-- The status and the session after a call for which `check` is the first that fails. -/
structure CallFails (c : Call) (check : Check) (status : Int32) (s : Session) : Prop where
  first : FirstFails (Check.Passes g) c.checks check
  status : status = -2
  buffer : s.buffer = ""
  code : s.code = check.code
  diagnostic : s.diagnostic = (check.fault wording).message

/-- Status, buffer, code and diagnostic agree on what became of a call. -/
def CallTold (c : Call) (r : Int32 × Session) : Prop :=
  CallSucceeds g wording c r.1 r.2 ∨ ∃ check, CallFails g wording c check r.1 r.2

theorem call_tells (s : Session) (c : Call) : CallTold g wording c (s.call g c wording) := by
  rw [Session.call]
  rcases g.answer_follows wording c with ⟨d, hd, hpassed⟩ | ⟨before, check, rest, hfirst⟩
  · rw [hd, Session.complete_ok]
    exact .inl ⟨hpassed, rfl, ⟨d, hd, rfl⟩, rfl, rfl⟩
  · obtain ⟨hchecks, hpassed, hfail, hfault⟩ := hfirst
    rw [hfault, Session.complete_error]
    exact .inr ⟨check, ⟨before, rest, hchecks, hpassed, hfail⟩, rfl, rfl,
      check.fault_code wording, rfl⟩

/-- **Status, buffer and diagnostic never disagree.** After each of some calls, made one after
another with one buffer, these are those of that call. Either all its checks pass: then the status
is 0, the buffer holds its document, and there is no code and no diagnostic. Or one fails: then the
status is -2, the buffer is empty, and code and diagnostic are those of the first check that fails,
in the words of the reader where a list could not be read. None of it depends on the calls before,
or on what the session held at the beginning. -/
theorem sessions_tell_each_call (s : Session) (calls : List Call) :
    List.Forall₂ (CallTold g wording) calls (s.callAll g wording calls) ∧
      s.callAll g wording calls = calls.map fun c => Session.call g ⟨"", none⟩ c wording := by
  induction calls generalizing s with
  | nil => exact ⟨.nil, rfl⟩
  | cons c rest ih =>
    obtain ⟨htell, hsame⟩ := ih (s.call g c wording).2
    refine ⟨.cons (call_tells g wording s c) htell, ?_⟩
    rw [Session.callAll, hsame, List.map_cons]
    exact congrArg (· :: _) (s.complete_eq ⟨"", none⟩ (g.answer c wording))

end

end Linkage

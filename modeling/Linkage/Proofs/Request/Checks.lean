import Linkage.Proofs.Checks
import Linkage.Proofs.Text.Trimming
import Linkage.Request

namespace Linkage

/-- The least number in range. -/
def Limit.least (l : Limit) : Int := if l.allowsZero then 0 else 1

/-- One thing that the parameters of a request are checked for. -/
inductive ParamCheck where
  /-- A parameter is there, and not blank. -/
  | given (name : String) (value : Option String)
  /-- A repeated parameter is there. -/
  | anyGiven (name : String) (texts : List String)
  /-- A text names an entity. -/
  | named (parameter text : String)
  /-- Identifiers are of one kind. -/
  | alike (context : String) (ids : List Identifier)
  /-- A source is one of those that the server knows. -/
  | known (sources : List String) (code : String)
  /-- A number is in range. -/
  | inRange (limit : Limit) (value : Int64)

namespace ParamCheck

def Passes : ParamCheck → Prop
  | given _ value => ∃ text, value = some text ∧ Text.trim text ≠ ""
  | anyGiven _ texts => texts ≠ []
  | named _ text => ∃ id, Identifier.parse? text = some id
  | alike _ ids => ∃ kind, ∀ id ∈ ids, Identifier.kind id = kind
  | known sources code => code ∈ sources
  | inRange limit value => limit.least ≤ value.toInt ∧ value.toInt ≤ 4294967295

/-- What is told when the check fails. -/
def fault : ParamCheck → Fault
  | given name _ => .missingParameter name
  | anyGiven name _ => .missingParameter name
  | named parameter text => .malformedIdentifier parameter text
  | alike context ids => .inconsistentIdentifiers context (ids.map Identifier.text)
  | known _ code => .unknownDataSource code
  | inRange limit value =>
    .outOfRange limit.name
      (if limit.least ≤ value.toInt then .thirtyTwoBit
      else if limit.allowsZero then .nonNegative else .positive) value

/-- An end of a path is given and names an entity, blanks around it aside. -/
def ofEnd (name : String) (value : Option String) : List ParamCheck :=
  given name value :: value.toList.map fun text => named name (Text.trim text)

end ParamCheck

/-- The entities that texts name; texts that name none are passed over. -/
def Identifier.namedBy (texts : List String) : List Identifier := texts.filterMap Identifier.parse?

/-- The entities that the two ends name. -/
def PathParams.ends (p : PathParams) : List Identifier :=
  Identifier.namedBy (p.origin.toList ++ p.target.toList)

/-- All that the parameters of a path query are checked for, in order. -/
def PathParams.checks (server : Server) (p : PathParams) : List ParamCheck :=
  ParamCheck.ofEnd "from" p.origin ++ ParamCheck.ofEnd "to" p.target ++
    [.alike "from and to" p.ends] ++
    p.avoid.map (.named "x") ++
    [.alike "avoided entities" (p.ends ++ Identifier.namedBy p.avoid)] ++
    (p.sources.map Text.trim).map (.known server.sources) ++
    [.inRange .maxDegrees p.maxDegrees]

/-- All that the parameters of a network query are checked for, in order. -/
def NetworkParams.checks (p : NetworkParams) : List ParamCheck :=
  [.anyGiven "e" p.entities] ++ p.entities.map (.named "e") ++
    [.alike "entities" (Identifier.namedBy p.entities)] ++
    [.inRange .maxDegrees p.maxDegrees, .inRange .buildOut p.buildOut,
      .inRange .maxEntities p.maxEntities]

/-! ## What each check lets through -/

/-- A computation that makes these checks, one after another. -/
abbrev Makes {α : Type} (checks : List ParamCheck) (x : Except Fault α) : Prop :=
  Obeys ParamCheck.Passes ParamCheck.fault checks x

theorem ParamCheck.fault_isClient (check : ParamCheck) : check.fault.isClient = true := by
  cases check <;> rfl

/-- A refusal lies in the parameters. -/
theorem Makes.isClient {α : Type} {checks : List ParamCheck} {x : Except Fault α} {fault : Fault}
    (h : Makes checks x) (hx : x = .error fault) : fault.isClient = true := by
  obtain ⟨check, _, rfl⟩ := (h.error_iff fault).mp hx
  exact check.fault_isClient

namespace Limit

/-- The number, if it is in range; the lower bound is looked at first. -/
theorem check_eq (l : Limit) (value : Int64) : l.check value =
    if l.least ≤ value.toInt ∧ value.toInt ≤ 4294967295 then .ok value.toInt.toNat
    else .error (ParamCheck.inRange l value).fault := by
  have hnegative : value < 0 ↔ ¬ 0 ≤ value.toInt := Int64.lt_iff_toInt_lt.trans Int.not_le.symm
  have hsmall : value < 1 ↔ ¬ 1 ≤ value.toInt := Int64.lt_iff_toInt_lt.trans Int.not_le.symm
  have hlarge : (greatest : Int) < value.toInt ↔ ¬ value.toInt ≤ 4294967295 := Int.not_le.symm
  unfold check ParamCheck.fault least
  simp only [hnegative, hsmall, hlarge]
  cases l.allowsZero
  · by_cases hlow : 1 ≤ value.toInt
    · by_cases hhigh : value.toInt ≤ 4294967295 <;> simp [hlow, hhigh]
    · simp [hlow]
  · by_cases hlow : 0 ≤ value.toInt
    · by_cases hhigh : value.toInt ≤ 4294967295 <;> simp [hlow, hhigh]
    · simp [hlow]

theorem check_makes (l : Limit) (value : Int64) : Makes [.inRange l value] (l.check value) := by
  rw [check_eq]
  split
  · rename_i hrange
    have hpass : (ParamCheck.inRange l value).Passes := hrange
    exact Obeys.pass hpass _
  · rename_i hrange
    exact Obeys.fail hrange

end Limit

namespace Identifier

variable {texts : List String} {ids : List Identifier}

/-- Blanks around a text do not matter to what it names. -/
theorem parse?_trim (text : String) : parse? (Text.trim text) = parse? text := by
  simp only [parse?, Text.trim_trim]

theorem ofParam_eq_ok {parameter text : String} {id : Identifier} :
    ofParam parameter text = .ok id ↔ parse? text = some id := by
  unfold ofParam
  cases parse? text <;> simp

theorem ofParam_makes (parameter text : String) :
    Makes [.named parameter text] (ofParam parameter text) := by
  unfold ofParam
  split
  · rename_i id hid
    exact Obeys.pass ⟨id, hid⟩ id
  · rename_i hnone
    apply Obeys.fail
    rintro ⟨id, hid⟩
    rw [hnone] at hid
    cases hid

theorem ofParams_makes (parameter : String) (texts : List String) :
    Makes (texts.map (.named parameter)) (ofParams parameter texts) :=
  Obeys.mapM (ofParam_makes parameter) texts

theorem ofParams_eq_ok {parameter : String} :
    ofParams parameter texts = .ok ids ↔ texts.map parse? = ids.map some := by
  rw [ofParams, mapM_eq_ok, ← List.forall₂_eq_eq_eq, List.forall₂_map_left_iff,
    List.forall₂_map_right_iff]
  simp only [ofParam_eq_ok]

theorem namedBy_eq (h : texts.map parse? = ids.map some) : namedBy texts = ids := by
  have hread : (texts.map parse?).filterMap id = (ids.map some).filterMap id := by rw [h]
  rw [List.filterMap_map, List.filterMap_map, Function.id_comp, Function.id_comp,
    List.filterMap_some] at hread
  rw [namedBy, hread]

end Identifier

theorem PathParams.ends_eq {p : PathParams} {a b : String} {origin target : Identifier}
    (ha : p.origin = some a) (hb : p.target = some b) (horigin : Identifier.parse? a = some origin)
    (htarget : Identifier.parse? b = some target) : p.ends = [origin, target] := by
  apply Identifier.namedBy_eq
  simp [ha, hb, horigin, htarget]

theorem ParamCheck.alike_passes {context : String} {first : Identifier} {rest : List Identifier} :
    (alike context (first :: rest)).Passes ↔ ∀ id ∈ rest, id.kind = first.kind := by
  constructor
  · rintro ⟨kind, hkind⟩ id hid
    rw [hkind id (List.mem_cons_of_mem first hid), hkind first List.mem_cons_self]
  · intro h
    exact ⟨first.kind, List.forall_mem_cons.mpr ⟨rfl, h⟩⟩

theorem Identifier.areConsistent_iff {context : String} {ids : List Identifier} :
    areConsistent ids = true ↔ (ParamCheck.alike context ids).Passes := by
  cases ids with
  | nil => exact iff_of_true rfl ⟨.entity, nofun⟩
  | cons first rest =>
    rw [ParamCheck.alike_passes, areConsistent, List.all_eq_true]
    simp only [beq_iff_eq]

namespace PathRequest

variable {server : Server} {p : PathParams}

theorem requiredText_makes (name : String) (value : Option String) :
    Makes [.given name value] (requiredText name value) := by
  cases value with
  | none => exact Obeys.fail nofun
  | some text =>
    rw [requiredText]
    split
    · rename_i hblank
      apply Obeys.fail
      rintro ⟨_, ⟨⟩, hvisible⟩
      exact hvisible (Text.isBlankText_iff.mp hblank)
    · rename_i hvisible
      exact Obeys.pass ⟨text, rfl, fun hnil => hvisible (Text.isBlankText_iff.mpr hnil)⟩ _

theorem requiredText_eq_ok {name : String} {value : Option String} {s : String} :
    requiredText name value = .ok s ↔
      ∃ text, value = some text ∧ Text.trim text ≠ "" ∧ Text.trim text = s := by
  cases value with
  | none => simp [requiredText]
  | some text => by_cases hblank : Text.isBlankText text <;>
      simp [requiredText, ← Text.isBlankText_iff, hblank]

/-- An end has to be given before it can be read. -/
theorem endpoint_makes (name : String) (value : Option String) :
    Makes (ParamCheck.ofEnd name value) (endpoint name value) := by
  cases value with
  | none => exact Obeys.fail nofun
  | some text =>
    apply (requiredText_makes name (some text)).bind
    intro s hs
    obtain ⟨_, ⟨⟩, _, rfl⟩ := requiredText_eq_ok.mp hs
    exact Identifier.ofParam_makes name (Text.trim text)

theorem endpoint_eq_ok {name : String} {value : Option String} {id : Identifier} :
    endpoint name value = .ok id ↔
      ∃ text, value = some text ∧ Text.trim text ≠ "" ∧ Identifier.parse? text = some id := by
  constructor
  · intro h
    obtain ⟨s, hs, h⟩ := Except.bind_eq_ok.mp h
    obtain ⟨text, rfl, hvisible, rfl⟩ := requiredText_eq_ok.mp hs
    rw [Identifier.ofParam_eq_ok, Identifier.parse?_trim] at h
    exact ⟨text, rfl, hvisible, h⟩
  · rintro ⟨text, rfl, hvisible, hid⟩
    refine Except.bind_eq_ok.mpr ⟨_, requiredText_eq_ok.mpr ⟨text, rfl, hvisible, rfl⟩, ?_⟩
    rw [Identifier.ofParam_eq_ok, Identifier.parse?_trim, hid]

/-- Each of the avoided entities is read before their kinds are compared. -/
theorem avoided_makes {origin target : Identifier} (hends : target.kind = origin.kind)
    (texts : List String) :
    Makes (texts.map (.named "x") ++
      [.alike "avoided entities" ([origin, target] ++ Identifier.namedBy texts)])
      (avoided origin target texts) := by
  unfold avoided
  split
  · rename_i hempty
    rw [List.isEmpty_iff.mp hempty]
    exact Obeys.pass (ParamCheck.alike_passes.mpr (List.forall_mem_singleton.mpr hends)) none
  · apply (Identifier.ofParams_makes "x" texts).bind
    intro ids hids
    rw [Identifier.namedBy_eq (Identifier.ofParams_eq_ok.mp hids)]
    split
    · rename_i hall
      have hsame : ∀ id ∈ target :: ids, id.kind = origin.kind := by
        rw [List.forall_mem_cons]
        refine ⟨hends, ?_⟩
        intro id hid
        exact beq_iff_eq.mp (List.all_eq_true.mp hall id hid)
      exact Obeys.pass (ParamCheck.alike_passes.mpr hsame) _
    · rename_i hnot
      apply Obeys.fail
      intro halike
      apply hnot
      apply List.all_eq_true.mpr
      intro id hid
      exact beq_iff_eq.mpr (ParamCheck.alike_passes.mp halike id (List.mem_cons_of_mem _ hid))

theorem knows_iff {code : String} : server.knows code = true ↔ code ∈ server.sources :=
  List.contains_iff_mem

theorem requiredSources_makes (server : Server) (texts : List String) :
    Makes ((texts.map Text.trim).map (.known server.sources)) (requiredSources server texts) := by
  unfold requiredSources
  split
  · rename_i hempty
    rw [List.isEmpty_iff.mp hempty]
    exact Obeys.ok none
  · split
    · rename_i code hfound
      obtain ⟨hunknown, before, rest, hcodes, hbefore⟩ :=
        List.find?_eq_some_iff_append.mp hfound
      rw [Bool.not_eq_true', ← Bool.not_eq_true, knows_iff] at hunknown
      refine .inr ⟨before.map (.known server.sources), .known server.sources code,
        rest.map (.known server.sources), ?_, ?_, hunknown, rfl⟩
      · rw [hcodes, List.map_append, List.map_cons]
      · refine List.forall_mem_map.mpr fun known hknown => knows_iff.mp ?_
        simpa using hbefore known hknown
    · rename_i hnone
      refine .inl ⟨_, rfl, List.forall_mem_map.mpr fun code hcode => knows_iff.mp ?_⟩
      simpa using List.find?_eq_none.mp hnone code hcode

theorem ofParams_makes (server : Server) (p : PathParams) :
    Makes (p.checks server) (ofParams server p) := by
  unfold PathParams.checks
  simp only [List.append_assoc]
  apply (endpoint_makes "from" p.origin).bind
  intro origin horigin
  apply (endpoint_makes "to" p.target).bind
  intro target htarget
  obtain ⟨a, ha, _, horigin⟩ := endpoint_eq_ok.mp horigin
  obtain ⟨b, hb, _, htarget⟩ := endpoint_eq_ok.mp htarget
  rw [PathParams.ends_eq ha hb horigin htarget]
  -- the kinds are looked at only now, and the avoided entities only if they agree
  by_cases hkind : origin.kind = target.kind
  · rw [if_neg (not_not.mpr hkind)]
    refine Obeys.next (ParamCheck.alike_passes.mpr (List.forall_mem_singleton.mpr hkind.symm)) ?_
    rw [← List.append_assoc]
    apply (avoided_makes hkind.symm p.avoid).bind
    intro avoid _
    apply (requiredSources_makes server p.sources).bind
    intro sources _
    exact (Limit.check_makes .maxDegrees p.maxDegrees).andThen fun maxDegrees =>
      PathRequest.mk origin target maxDegrees avoid p.forbidAvoided sources p.withRaw
  · rw [if_pos hkind]
    exact Obeys.fail fun halike => hkind (ParamCheck.alike_passes.mp halike target (by simp)).symm

end PathRequest

theorem NetworkRequest.ofParams_makes (p : NetworkParams) :
    Makes p.checks (NetworkRequest.ofParams p) := by
  unfold NetworkParams.checks NetworkRequest.ofParams
  simp only [List.append_assoc]
  by_cases hnone : p.entities = []
  · rw [if_pos (List.isEmpty_iff.mpr hnone)]
    exact Obeys.fail fun hgiven => hgiven hnone
  rw [if_neg fun hempty => hnone (List.isEmpty_iff.mp hempty)]
  refine Obeys.next (fun hnil => hnone hnil) ?_
  apply (Identifier.ofParams_makes "e" p.entities).bind
  intro entities hentities
  rw [Identifier.namedBy_eq (Identifier.ofParams_eq_ok.mp hentities)]
  split
  · rename_i hconsistent
    refine Obeys.next (Identifier.areConsistent_iff.mp hconsistent) ?_
    apply (Limit.check_makes .maxDegrees p.maxDegrees).bind
    intro maxDegrees _
    apply (Limit.check_makes .buildOut p.buildOut).bind
    intro buildOut _
    exact (Limit.check_makes .maxEntities p.maxEntities).andThen fun maxEntities =>
      NetworkRequest.mk entities maxDegrees buildOut maxEntities p.withRaw
  · rename_i hmixed
    exact Obeys.fail fun halike => hmixed (Identifier.areConsistent_iff.mpr halike)

end Linkage

import Linkage.Proofs.Service.Outcome

namespace Linkage

open Json (Value)

variable {α : Type}

/-- The elapsed times in a response that is written now. -/
def Response.timings? (encode : α → Value) (r : Response α) (now : Nat) : Option Value :=
  ((Value.object ((r.map encode).members now)).member? "meta").bind (Value.member? "timings")

/-- A field that is an object with these keys, or is left out if there are none. -/
structure ListsNames (field : Option Value) (names : String → Prop) : Prop where
  absent : field = none ↔ ∀ name, ¬ names name
  keys : ∀ v, field = some v →
    ∃ members, v = .object members ∧ ∀ name, name ∈ members.map (·.1) ↔ names name

theorem ListsNames.congr {field : Option Value} {names names' : String → Prop}
    (h : ListsNames field names) (hnames : ∀ name, names name ↔ names' name) :
    ListsNames field names' := by
  have heq : names = names' := funext fun name => propext (hnames name)
  rwa [← heq]

theorem ResponseInfo.member?_timings (m : ResponseInfo) (now : Nat) :
    (m.value now).member? "timings" = (m.timers.timings? now).map timingsValue := by
  rw [value, Value.member?]
  cases m.native <;> cases m.timers.timings? now <;> simp [NativeInfo.members]

/-- The names in a reading are listed, if there are any. -/
theorem Timers.listsNames_timings (t : Timers) (now : Nat) :
    ListsNames ((t.timings? now).map ResponseInfo.timingsValue)
      fun name => name ∈ (t.read now).map (·.1) := by
  unfold timings?
  by_cases hempty : (t.read now).isEmpty = true
  · rw [if_pos hempty, List.isEmpty_iff.mp hempty]
    exact ⟨iff_of_true rfl fun _ => List.not_mem_nil, nofun⟩
  · rw [if_neg hempty]
    constructor
    · apply iff_of_false nofun
      intro hnone
      apply hempty
      rw [List.isEmpty_iff, ← List.map_eq_nil_iff]
      exact List.eq_nil_iff_forall_not_mem.mpr hnone
    · rintro _ ⟨⟩
      refine ⟨_, rfl, ?_⟩
      intro name
      rw [List.map_map]
      rfl

/-- A registry lists what has been started, if its reading has not been taken. -/
theorem Timers.listsNames_open {t : Timers} (hopen : t.isConcluded = false) (now : Nat) :
    ListsNames ((t.timings? now).map ResponseInfo.timingsValue) fun name =>
      t.state name ≠ .unstarted :=
  (t.listsNames_timings now).congr (mem_read hopen now)

/-- A registry lists what its reading has, once that has been taken. -/
theorem Timers.listsNames_concluded {t : Timers} {m : Timings} (h : t.reading = some m)
    (now : Nat) :
    ListsNames ((t.timings? now).map ResponseInfo.timingsValue) fun name => name ∈ m.map (·.1) := by
  have hread : t.read now = m := by rw [read, h, Option.getD_some]
  rw [← hread]
  exact t.listsNames_timings now

namespace Service

theorem respond_timings? (server : Server) (now : Timestamp) (link : String)
    (outcome : Except Fault (α × Option String)) (t : Timers) (encode : α → Value) (later : Nat) :
    (respond server now link (outcome, t)).timings? encode later =
      (t.timings? later).map ResponseInfo.timingsValue := by
  cases outcome with
  | ok data => exact ResponseInfo.member?_timings ⟨_, _, _, _, _⟩ later
  | error fault => exact ResponseInfo.member?_timings ⟨_, _, _, _, _⟩ later

/-- A query that ends with a fault before any call. Its response lists the names that were there
before. -/
structure StopsEarly (x : Exchange (Response α)) (encode : α → Value) (fault : Fault)
    (names : String → Prop) : Prop where
  silent : x.calls = []
  told : ∀ engine, (x.run engine).fault? = some fault
  status : ∀ engine, (x.run engine).status = fault.status
  listed : ∀ engine later, ListsNames ((x.run engine).timings? encode later) names

/-- A query that makes its call. Its response lists the names of the stopwatches that were known
before and of those of the call, and the name of the work on the document if the engine sent one,
whatever became of that. No stopwatch causes a fault. -/
structure Progresses (x : Exchange (Response α)) (encode : α → Value) (t : Timers) (call : Call) :
    Prop where
  once : x.calls = [call]
  failed : ∀ (engine : Call → Reply) later, (engine call).status ≠ 0 →
    ListsNames ((x.run engine).timings? encode later) fun name =>
      t.state name ≠ .unstarted ∨ name ∈ ["nativeApi", "nativeApi:" ++ call.name]
  answered : ∀ (engine : Call → Reply) later, (engine call).status = 0 →
    ListsNames ((x.run engine).timings? encode later) fun name =>
      t.state name ≠ .unstarted ∨
        name ∈ ["nativeApi", "nativeApi:" ++ call.name, "processResults"]
  untroubled : ∀ engine fault, (x.run engine).fault? ≠ some (.timer fault)

theorem stopsEarly_settled (server : Server) (now : Timestamp) (link : String) {t : Timers}
    {names : String → Prop} (encode : α → Value) (fault : Fault)
    (hnames : ∀ later, ListsNames ((t.timings? later).map ResponseInfo.timingsValue) names) :
    StopsEarly (.settled (respond server now link (.error fault, t))) encode fault names where
  silent := rfl
  told _ := rfl
  status _ := rfl
  listed _ later := by
    rw [Exchange.run, respond_timings?]
    exact hnames later

/-! ## Calls -/

theorem respond_fault? {server : Server} {now : Timestamp} {link : String}
    {outcome : Except Fault (α × Option String)} {t : Timers} {fault : Fault} :
    (respond server now link (outcome, t)).fault? = some fault ↔ outcome = .error fault := by
  cases outcome with
  | ok data => exact iff_of_false nofun nofun
  | error other => exact Option.some_inj.trans (Except.error.injEq other fault).symm.to_iff

/-- Neither the reply nor the work on a document causes a fault of a stopwatch. -/
theorem document_untimed {server : Server} {read : String → Except Fault α}
    (hread : Reads server read) (withRaw : Bool) (reply : Reply) (fault : TimerFault) :
    reply.document.bind (results server read withRaw) ≠ .error (.timer fault) := by
  intro h
  rcases Except.bind_eq_error.mp h with h | ⟨raw, _, h⟩
  · unfold Reply.document at h
    split at h <;> cases h
  rcases Except.bind_eq_error.mp h with h | ⟨data, hdata, h⟩
  · have hmem := hread.fault _ _ h
    simp [readingFaults] at hmem
  rcases Except.bind_eq_error.mp h with h | ⟨_, _, h⟩
  · obtain ⟨kept, hkept⟩ := hread.json _ _ hdata server.wording
    rw [hkept] at h
    split at h <;> cases h
  · cases h

theorem progresses_of_asksFor {x : Exchange (Except Fault String × Timers)} {t : Timers}
    {call : Call} (hx : x.AsksFor t call) (server : Server) (now : Timestamp) (link : String)
    {read : String → Except Fault α} (hread : Reads server read) (withRaw : Bool)
    (encode : α → Value) :
    Progresses (x.map (answer server now link read withRaw)) encode t call := by
  have hrun := run_of_asksFor hx server now link read withRaw
  have hlists (engine : Call → Reply) (later : Nat) : ListsNames
      (((x.map (answer server now link read withRaw)).run engine).timings? encode later) fun name =>
        t.state name ≠ .unstarted ∨
          name ∈ call.timers ++ processTimers (engine call).document := by
    obtain ⟨after, h, hgrows⟩ := hrun engine
    rw [h, respond_timings?]
    exact (Timers.listsNames_open hgrows.isOpen later).congr hgrows.known
  constructor
  case once =>
    obtain ⟨resume, rfl, -⟩ := hx
    rfl
  case failed =>
    intro engine later hstatus
    have h := hlists engine later
    rw [Reply.document, if_neg hstatus] at h
    exact h
  case answered =>
    intro engine later hstatus
    have h := hlists engine later
    rw [Reply.document, if_pos hstatus] at h
    exact h
  case untroubled =>
    intro engine fault htold
    obtain ⟨after, h, _⟩ := hrun engine
    rw [h] at htold
    exact document_untimed hread withRaw (engine call) fault (respond_fault?.mp htold)

/-! ## Once the reading has been taken -/

/-- There is no document to work on after a fault. -/
theorem answer_fault (server : Server) (now : Timestamp) (link : String)
    (read : String → Except Fault α) (withRaw : Bool) (fault : Fault) (t : Timers) :
    answer server now link read withRaw (.error fault, t) =
      respond server now link (.error fault, t) := rfl

/-! ## Queries -/

/-- How far a query comes, by its parameters and its stopwatches. As long as the reading has not
been taken it stops early when a check fails, and otherwise progresses. After that it stops early in
any case. -/
structure TellsProgress {ρ : Type} (x : Exchange (Response α)) (encode : α → Value) (t : Timers)
    (checked : Except Fault ρ) (selects : ρ → Call → Prop) : Prop where
  refused : ∀ fault, checked = .error fault → t.isConcluded = false →
    StopsEarly x encode fault (fun name => t.state name ≠ .unstarted) ∧ fault.isClient = true
  asked : ∀ request, checked = .ok request → t.isConcluded = false →
    ∃ call, selects request call ∧ Progresses x encode t call
  refusedLate : ∀ fault m, checked = .error fault → t.reading = some m →
    StopsEarly x encode fault fun name => name ∈ m.map (·.1)
  late : ∀ request m, checked = .ok request → t.reading = some m →
    StopsEarly x encode tooLate (fun name => name ∈ m.map (·.1)) ∧
      ∀ engine, (x.run engine).status = 500

variable {t : Timers}

theorem TellsProgress.of_exchange {ρ : Type} {x : Exchange (Response α)}
    {checked : Except Fault ρ} {selects : ρ → Call → Prop} {read : String → Except Fault α}
    (server : Server) (now : Timestamp) (link : String) (encode : α → Value)
    (exchange : ρ → Exchange (Except Fault String × Timers)) (withRaw : ρ → Bool)
    (hread : Reads server read)
    (hclient : ∀ fault, checked = .error fault → fault.isClient = true)
    (hasks : ∀ r, checked = .ok r → t.isConcluded = false →
      ∃ call, selects r call ∧ (exchange r).AsksFor t call)
    (hlate : ∀ r, checked = .ok r → t.isConcluded = true →
      exchange r = .settled (.error tooLate, t))
    (hrefused : ∀ fault, checked = .error fault →
      x = .settled (respond server now link (.error fault, t)))
    (hchecked : ∀ r, checked = .ok r →
      x = (exchange r).map (answer server now link read (withRaw r))) :
    TellsProgress x encode t checked selects := by
  constructor
  case refused =>
    intro fault hfault hopen
    rw [hrefused fault hfault]
    exact ⟨stopsEarly_settled server now link encode fault (Timers.listsNames_open hopen),
      hclient fault hfault⟩
  case asked =>
    intro r hr hopen
    obtain ⟨call, hselects, hcall⟩ := hasks r hr hopen
    rw [hchecked r hr]
    exact ⟨call, hselects, progresses_of_asksFor hcall server now link hread (withRaw r) encode⟩
  case refusedLate =>
    intro fault m hfault hm
    rw [hrefused fault hfault]
    exact stopsEarly_settled server now link encode fault (Timers.listsNames_concluded hm)
  case late =>
    intro r m hr hm
    have hconcluded : t.isConcluded = true := by
      rw [Timers.isConcluded, hm]
      rfl
    rw [hchecked r hr, hlate r hr hconcluded, Exchange.map, answer_fault]
    exact ⟨stopsEarly_settled server now link encode tooLate (Timers.listsNames_concluded hm),
      fun _ => rfl⟩

theorem findPath_tellsProgress (server : Server) (now : Timestamp) (link : String)
    (params : PathParams) :
    TellsProgress (findPath server now params link t) PathResult.value t
      (PathRequest.ofParams server params) PathRequest.Selects := by
  apply TellsProgress.of_exchange server now link PathResult.value
    (fun r => r.exchange now.millis t) PathRequest.withRaw (reads_path server)
  case hclient => exact fun _ => PathRequest.ofParams_isClient
  case hasks =>
    intro r hr hopen
    obtain ⟨call, hcall, hselects⟩ := (PathRequest.ofParams_uniform hr).selects
    exact ⟨call, hselects, PathRequest.exchange_asksFor hcall hopen now.millis⟩
  case hlate => exact fun r _ hconcluded => PathRequest.exchange_concluded hconcluded r now.millis
  case hrefused =>
    intro fault hfault
    rw [findPath, hfault]
  case hchecked =>
    intro r hr
    rw [findPath, hr]

theorem findNetwork_tellsProgress (server : Server) (now : Timestamp) (link : String)
    (params : NetworkParams) :
    TellsProgress (findNetwork server now params link t) NetworkResult.value t
      (NetworkRequest.ofParams params) NetworkRequest.Selects := by
  apply TellsProgress.of_exchange server now link NetworkResult.value
    (fun r => r.exchange now.millis t) NetworkRequest.withRaw (reads_network server)
  case hclient => exact fun _ => NetworkRequest.ofParams_isClient
  case hasks =>
    intro r hr hopen
    obtain ⟨call, hcall, hselects⟩ := NetworkRequest.ofParams_selects hr
    exact ⟨call, hselects, NetworkRequest.exchange_asksFor hcall hopen now.millis⟩
  case hlate =>
    intro r hr hconcluded
    obtain ⟨call, hcall, _⟩ := NetworkRequest.ofParams_selects hr
    exact NetworkRequest.exchange_concluded hconcluded hcall now.millis
  case hrefused =>
    intro fault hfault
    rw [findNetwork, hfault]
  case hchecked =>
    intro r hr
    rw [findNetwork, hr]

/-- **Stopwatches tell progress.** As long as the reading has not been taken, a query whose
parameters fail a check lists the stopwatches that were there, and any other query those of its call
as well, and that of the work on the engine's document if the engine sent one. Once the reading has
been taken no call is made, and every response lists what is in the reading. -/
theorem stopwatches_tell_progress (server : Server) (now : Timestamp) (link : String)
    (t : Timers) :
    (∀ params, TellsProgress (findPath server now params link t) PathResult.value t
      (PathRequest.ofParams server params) PathRequest.Selects) ∧
    ∀ params, TellsProgress (findNetwork server now params link t) NetworkResult.value t
      (NetworkRequest.ofParams params) NetworkRequest.Selects :=
  ⟨findPath_tellsProgress server now link, findNetwork_tellsProgress server now link⟩

/-- A query with a stopwatch of its own. -/
def timedQuery (t : Timers) : Exchange (Response PathResult) :=
  findPath customersOnly ⟨0, 0⟩ { origin := some "1", target := some "2" } "/" t

theorem timedQuery_tells_progress :
    (∃ call, call.name = "findPathByEntityID" ∧
      Progresses (timedQuery (.started 0 ["overall"])) PathResult.value (.started 0 ["overall"])
        call) ∧
    StopsEarly (timedQuery ((Timers.started 0 ["overall"]).conclude 7)) PathResult.value tooLate
      fun name => name ∈ ["overall"] := by
  have hchecked : PathRequest.ofParams customersOnly
      { origin := some "1", target := some "2" } =
        .ok ⟨.entity 1, .entity 2, 3, none, false, none, false⟩ := rfl
  constructor
  · obtain ⟨call, ⟨ends, filter, rfl, hkind, hvariant⟩, hprogress⟩ :=
      ((stopwatches_tell_progress customersOnly ⟨0, 0⟩ "/" (.started 0 ["overall"])).1
        _).asked _ hchecked rfl
    refine ⟨_, ?_, hprogress⟩
    rw [Call.name, hkind, hvariant]
    rfl
  · exact (((stopwatches_tell_progress customersOnly ⟨0, 0⟩ "/"
      ((Timers.started 0 ["overall"]).conclude 7)).1 _).late _ [("overall", 7)] hchecked rfl).1

end Service

end Linkage

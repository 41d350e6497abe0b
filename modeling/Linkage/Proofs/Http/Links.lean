import Linkage.CommandLine.Program
import Linkage.Http.Router
import Linkage.Proofs.Service.Outcome
import Linkage.Proofs.Text.Forms
import Linkage.Proofs.Text.Numbers
import Mathlib.Data.List.TakeWhile

/-!
Links, and the queries that they stand for.

The query string of a link is taken apart into pairs, and the parameters are read from these. The
server then puts the same query to its service as the command did, with stopwatches of its own; what
comes of it does not depend on these.
-/

namespace Linkage

open Http CommandLine

/-! ## Parameters among pairs -/

namespace Http.Query

section

variable (name key value : String) (pairs rest : List (String × String)) (values : List String)

@[simp] theorem first?_cons : (Query.mk ((key, value) :: rest)).first? name =
    if key = name then some value else (Query.mk rest).first? name := by
  by_cases h : key = name <;> simp [first?, h]

@[simp] theorem first?_append : (Query.mk (pairs ++ rest)).first? name =
    ((Query.mk pairs).first? name).or ((Query.mk rest).first? name) := by
  rw [first?, first?, first?, List.find?_append, Option.map_or]

@[simp] theorem first?_each : (Query.mk (values.map fun value => (key, value))).first? name =
    if key = name then values.head? else none := by
  cases values <;> by_cases h : key = name <;> simp [first?, h]

@[simp] theorem first?_flagPair (set : Bool) : (Query.mk (flagPair key set)).first? name =
    if key = name ∧ set = true then some "true" else none := by
  by_cases h : key = name <;> cases set <;> simp [first?, flagPair, h]

@[simp] theorem all_cons : (Query.mk ((key, value) :: rest)).all name =
    if key = name then value :: (Query.mk rest).all name else (Query.mk rest).all name := by
  by_cases h : key = name <;> simp [all, h]

@[simp] theorem all_append : (Query.mk (pairs ++ rest)).all name =
    (Query.mk pairs).all name ++ (Query.mk rest).all name := by
  rw [all, all, all, List.filter_append, List.map_append]

@[simp] theorem all_each : (Query.mk (values.map fun value => (key, value))).all name =
    if key = name then values else [] := by
  by_cases h : key = name <;> simp [all, h, List.filter_map, Function.comp_def]

@[simp] theorem all_flagPair (set : Bool) : (Query.mk (flagPair key set)).all name =
    if key = name ∧ set = true then ["true"] else [] := by
  by_cases h : key = name <;> cases set <;> simp [all, flagPair, h]

end

variable {q : Query} {name : String}

theorem integer_eq {n : Int64} (h : q.first? name = some (Text.decimal n.toInt))
    (default : Int64) : q.integer name default = .ok n := by
  simp only [integer, h, Text.trim_decimal, Text.int64?_decimal]

theorem flag_eq {set : Bool} (h : q.first? name = if set then some "true" else none) :
    q.flag name false = .ok set := by
  rw [flag, h]
  cases set <;> rfl

theorem parse_encode (pairs : List (String × String)) :
    parse (some (Text.Form.encode pairs)) = ⟨pairs⟩ :=
  congrArg Query.mk (Text.Form.decode_encode pairs)

end Http.Query

namespace CommandLine

open Query

/-- The parameters of a query are read from the pairs of its link. -/
theorem PathQuery.pathParams_pairs (q : PathQuery) :
    (Query.mk q.pairs).pathParams = .ok q.params := by
  have horigin : (Query.mk q.pairs).first? "from" = some q.origin := rfl
  have htarget : (Query.mk q.pairs).first? "to" = some q.target := rfl
  have hdegrees : (Query.mk q.pairs).first? "maxDegrees" =
      some (Text.decimal q.maxDegrees.toInt) := rfl
  have hforbid : (Query.mk q.pairs).first? "forbidAvoided" =
      if q.forbidAvoided then some "true" else none := by
    simp [pairs, numberPair]
  have hraw : (Query.mk q.pairs).first? "withRaw" = if q.withRaw then some "true" else none := by
    simp [pairs, numberPair]
  have havoid : (Query.mk q.pairs).all "x" = q.avoid := by
    simp [pairs, numberPair]
  have hsources : (Query.mk q.pairs).all "s" = q.sources := by
    simp [pairs, numberPair]
  rw [pathParams, integer_eq hdegrees, flag_eq hforbid, flag_eq hraw, horigin, htarget, havoid,
    hsources]
  rfl

theorem NetworkQuery.networkParams_pairs (q : NetworkQuery) :
    (Query.mk q.pairs).networkParams = .ok q.params := by
  have hdegrees : (Query.mk q.pairs).first? "maxDegrees" =
      some (Text.decimal q.maxDegrees.toInt) := by
    simp [pairs, numberPair]
  have hbuild : (Query.mk q.pairs).first? "buildOut" = some (Text.decimal q.buildOut.toInt) := by
    simp [pairs, numberPair]
  have hmost : (Query.mk q.pairs).first? "maxEntities" =
      some (Text.decimal q.maxEntities.toInt) := by
    simp [pairs, numberPair]
  have hraw : (Query.mk q.pairs).first? "withRaw" = if q.withRaw then some "true" else none := by
    simp [pairs, numberPair]
  have hmembers : (Query.mk q.pairs).all "e" = q.entities := by
    simp [pairs, numberPair]
  rw [networkParams, integer_eq hdegrees, integer_eq hbuild, integer_eq hmost, flag_eq hraw,
    hmembers]
  rfl

end CommandLine

/-! ## Links -/

/-- A path and a query string after a question mark are told apart at it. -/
theorem Http.Location.ofUri_local {path query : String} (hslash : path.toList.head? = some '/')
    (hpath : ∀ c ∈ path.toList, c ≠ '?' ∧ c ≠ '#') (hquery : '#' ∉ query.toList) :
    Location.ofUri (path ++ "?" ++ query) = ⟨"", path, some query⟩ := by
  have hlist : (path ++ "?" ++ query).toList = path.toList ++ '?' :: query.toList := by simp
  have hwhole : (path.toList ++ '?' :: query.toList).takeWhile (· != '#') =
      path.toList ++ '?' :: query.toList := by
    refine List.takeWhile_eq_self_iff.mpr fun c hc => bne_iff_ne.mpr fun heq => ?_
    subst heq
    rw [List.mem_append, List.mem_cons] at hc
    rcases hc with hc | hc | hc
    · exact (hpath _ hc).2 rfl
    · exact absurd hc (by decide)
    · exact hquery hc
  obtain ⟨rest, hrest⟩ : ∃ rest, path.toList = '/' :: rest :=
    ⟨_, List.eq_cons_of_mem_head? hslash⟩
  have hlocal : splitHost (path.toList ++ '?' :: query.toList) =
      ([], path.toList ++ '?' :: query.toList) := by
    rw [hrest]
    rfl
  have hfront : ∀ c ∈ path.toList, (c != '?') = true := fun c hc => bne_iff_ne.mpr (hpath c hc).1
  have hempty : path.toList.isEmpty = false := by rw [hrest, List.isEmpty_cons]
  rw [ofUri, hlist, hwhole, hlocal]
  dsimp only
  rw [List.takeWhile_append_of_pos hfront, List.dropWhile_append_of_pos hfront]
  simp [hempty]

/-- The places that are known have no marks in their paths that would end them. -/
theorem Http.Route.ofPath?_plain {path : String} {route : Route} (h : ofPath? path = some route) :
    path.toList.head? = some '/' ∧ ∀ c ∈ path.toList, c ≠ '?' ∧ c ≠ '#' := by
  unfold ofPath? at h
  split at h
  · simp
  · simp
  · simp
  · cases h

section

variable {path : String} {route : Route} (hroute : Route.ofPath? path = some route)
  (pairs : List (String × String))

include hroute

/-- A link to a place leads to its path, with a query string that holds its pairs. -/
theorem Http.Location.ofUri_link : ofUri (path ++ "?" ++ Text.Form.encode pairs) =
    ⟨"", path, some (Text.Form.encode pairs)⟩ := by
  obtain ⟨hslash, hpath⟩ := Route.ofPath?_plain hroute
  exact ofUri_local hslash hpath (Text.Form.hash_notMem_encode pairs)

/-- A request for reading a link is visited at its place, with its pairs. -/
theorem Http.Router.handle_link (server : Server) (now : Timestamp) :
    handle server now ⟨"GET", path ++ "?" ++ Text.Form.encode pairs, none⟩ =
      visit server now (path ++ "?" ++ Text.Form.encode pairs) ⟨pairs⟩ route := by
  have htext : (⟨"", path, some (Text.Form.encode pairs)⟩ : Location).text =
      path ++ "?" ++ Text.Form.encode pairs := by
    simp [Location.text, String.append_assoc]
  rw [handle]
  dsimp only
  rw [Location.ofUri_link hroute]
  dsimp only
  rw [hroute, dispatch]
  simp [htext, Query.parse_encode]

end

/-! ## The same query at another instant -/

/-- The same response, with an instant and stopwatches of its own. -/
def Response.retimed {α : Type} (r : Response α) (now : Timestamp) (timers : Timers) : Response α :=
  match r with
  | .success data link info raw =>
    .success data link { info with timestamp := now, timers := timers } raw
  | .failure fault link info => .failure fault link { info with timestamp := now, timers := timers }

namespace Service

variable {α : Type}

/-- Neither the calls of a query nor its outcome depend on when it is made. -/
def Steady (server : Server) (link : String) (query : Timestamp → Timers → Exchange (Response α)) :
    Prop :=
  ∃ (calls : List Call) (outcome : (Call → Reply) → Except Fault (α × Option String)),
    ∀ now timers, timers.isConcluded = false →
      (query now timers).calls = calls ∧ ∀ engine, ∃ after,
        (query now timers).run engine = respond server now link (outcome engine, after)

theorem steady_of_asksFor {server : Server} {call : Call}
    {exchange : Timestamp → Timers → Exchange (Except Fault String × Timers)}
    (h : ∀ now timers, timers.isConcluded = false → (exchange now timers).AsksFor timers call)
    (link : String) (read : String → Except Fault α) (withRaw : Bool) :
    Steady server link fun now timers =>
      (exchange now timers).map (answer server now link read withRaw) := by
  refine ⟨[call], fun engine => (engine call).document.bind (results server read withRaw),
    fun now timers hopen => ⟨?_, fun engine => ?_⟩⟩
  · rw [Exchange.calls_map, (h now timers hopen).calls_eq]
  · obtain ⟨after, hrun, _⟩ :=
      run_of_asksFor (h now timers hopen) server now link read withRaw engine
    exact ⟨after, hrun⟩

theorem steady_of_fault (server : Server) (link : String) (fault : Fault) :
    Steady (α := α) server link fun now timers =>
      .settled (respond server now link (.error fault, timers)) :=
  ⟨[], fun _ => .error fault, fun _ timers _ => ⟨rfl, fun _ => ⟨timers, rfl⟩⟩⟩

theorem findPath_steady (server : Server) (params : PathParams) (link : String) :
    Steady server link fun now timers => findPath server now params link timers := by
  unfold findPath
  cases hchecked : PathRequest.ofParams server params with
  | error fault => exact steady_of_fault server link fault
  | ok request =>
    obtain ⟨call, hcall, _⟩ := (PathRequest.ofParams_uniform hchecked).selects
    exact steady_of_asksFor
      (fun now _ hopen => PathRequest.exchange_asksFor hcall hopen now.millis) link _ _

theorem findNetwork_steady (server : Server) (params : NetworkParams) (link : String) :
    Steady server link fun now timers => findNetwork server now params link timers := by
  unfold findNetwork
  cases hchecked : NetworkRequest.ofParams params with
  | error fault => exact steady_of_fault server link fault
  | ok request =>
    obtain ⟨call, hcall, _⟩ := NetworkRequest.ofParams_selects hchecked
    exact steady_of_asksFor
      (fun now _ hopen => NetworkRequest.exchange_asksFor hcall hopen now.millis) link _ _

end Service

/-! ## Requests for links -/

namespace Http.Router

/-- While no reading has been taken the wait for a worker does not fail, and the query is
submitted. -/
theorem enqueue_open {t : Timers} (hopen : t.isConcluded = false) (server : Server)
    (now : Timestamp) (link : String) (query : Timers → Exchange (Response Json.Value)) :
    ∃ waited, waited.isConcluded = false ∧
      (enqueue server now link t query).work = (query waited).map (written now) := by
  obtain ⟨waiting, hstart, hwaiting, hstate⟩ := Timers.start_open hopen now.millis queueTimer
  have hrunning : waiting.state queueTimer = .running := by rw [hstate, if_pos rfl]
  obtain ⟨waited, hstop, hwaited, _⟩ := Timers.stop_running hrunning now.millis
  have hwait : (do (← t.start now.millis queueTimer).stop now.millis queueTimer :
      Except TimerFault Timers) = .ok waited := by
    rw [hstart]
    exact hstop
  refine ⟨waited, hwaited, ?_⟩
  rw [enqueue, hwait]

theorem respond_replies (server : Server) (now : Timestamp) (engine : Call → Reply)
    (request : HttpRequest) (breakdown : String) :
    respond server now (fun call => some (engine call)) request breakdown =
      (handle server now request).work.run engine := by
  rw [respond]
  cases (handle server now request).work <;> rfl

end Http.Router

namespace CommandLine

/-- A server that is asked for a link at some time does what a query of a command did. It makes the
same calls, and with any engine it sends the response to that query, but for the instant and the
stopwatches in its metadata. -/
structure Replays (server : Server) (now : Timestamp) (link : String)
    (query : Exchange (Response Json.Value)) : Prop where
  calls : (Router.handle server now ⟨"GET", link, none⟩).work.calls = query.calls
  answered : ∀ (engine : Call → Reply) (breakdown : String), ∃ timers,
    Router.respond server now (fun call => some (engine call)) ⟨"GET", link, none⟩ breakdown =
      ⟨(query.run engine).status, some "application/json", some "*",
        .response ((query.run engine).retimed now timers) now.millis⟩

/-- The wait for a worker changes the stopwatches of a query, and nothing else. -/
theorem replays_of_enqueue {α : Type} {server : Server} {link : String}
    {query : Timestamp → Timers → Exchange (Response α)}
    (hsteady : Service.Steady server link query) {encode : α → Json.Value}
    {now now' : Timestamp} {t t' : Timers} (hopen : t.isConcluded = false)
    (hopen' : t'.isConcluded = false)
    (hhandle : Router.handle server now ⟨"GET", link, none⟩ =
      Router.enqueue server now link t fun timers =>
        (query now timers).map fun r => r.map encode) :
    Replays server now link ((query now' t').map fun r => r.map encode) := by
  obtain ⟨calls, outcome, h⟩ := hsteady
  obtain ⟨waited, hwaited, hwork⟩ := Router.enqueue_open hopen server now link fun timers =>
    (query now timers).map fun r => r.map encode
  obtain ⟨hcalls, hrun⟩ := h now waited hwaited
  obtain ⟨hcalls', hrun'⟩ := h now' t' hopen'
  constructor
  · rw [hhandle, hwork]
    simp only [Exchange.calls_map]
    rw [hcalls, hcalls']
  · intro engine breakdown
    obtain ⟨after, hafter⟩ := hrun engine
    obtain ⟨after', hafter'⟩ := hrun' engine
    refine ⟨after, ?_⟩
    rw [Router.respond_replies, hhandle, hwork]
    simp only [Exchange.run_map]
    rw [hafter, hafter']
    cases outcome engine <;> rfl

theorem PathQuery.link_eq (q : PathQuery) :
    q.link = "/entity-paths" ++ "?" ++ Text.Form.encode q.pairs := rfl

theorem NetworkQuery.link_eq (q : NetworkQuery) :
    q.link = "/entity-networks" ++ "?" ++ Text.Form.encode q.pairs := rfl

theorem PathQuery.pathParams_link (q : PathQuery) :
    (Query.parse (Location.ofUri q.link).query).pathParams = .ok q.params := by
  rw [q.link_eq, Location.ofUri_link rfl, Query.parse_encode, q.pathParams_pairs]

theorem NetworkQuery.networkParams_link (q : NetworkQuery) :
    (Query.parse (Location.ofUri q.link).query).networkParams = .ok q.params := by
  rw [q.link_eq, Location.ofUri_link rfl, Query.parse_encode, q.networkParams_pairs]

theorem PathQuery.handle_link (q : PathQuery) (server : Server) (now : Timestamp) :
    Router.handle server now ⟨"GET", q.link, none⟩ =
      Router.enqueue server now q.link (Timers.started now.millis [Router.overallTimer])
        fun timers => (Service.findPath server now q.params q.link timers).map fun r =>
          r.map PathResult.value := by
  rw [q.link_eq, Router.handle_link rfl, Router.visit, Router.paths, q.pathParams_pairs]

theorem NetworkQuery.handle_link (q : NetworkQuery) (server : Server) (now : Timestamp) :
    Router.handle server now ⟨"GET", q.link, none⟩ =
      Router.enqueue server now q.link (Timers.started now.millis [Router.overallTimer])
        fun timers => (Service.findNetwork server now q.params q.link timers).map fun r =>
          r.map NetworkResult.value := by
  rw [q.link_eq, Router.handle_link rfl, Router.visit, Router.networks, q.networkParams_pairs]

/-- **Links replay queries.** From the query string of a link the parameters of the query are read
that it was made of, whatever texts and numbers they have. A server that is asked for the link, at
any time, makes the calls that the command made, and answers as the command did. -/
theorem links_replay_queries :
    (∀ q : PathQuery,
      (Query.parse (Location.ofUri q.link).query).pathParams = .ok q.params ∧
      ∀ (server : Server) (now now' : Timestamp), Replays server now' q.link
        (q.ask server now (Timers.started now.millis [Program.overallTimer]))) ∧
    ∀ q : NetworkQuery,
      (Query.parse (Location.ofUri q.link).query).networkParams = .ok q.params ∧
      ∀ (server : Server) (now now' : Timestamp), Replays server now' q.link
        (q.ask server now (Timers.started now.millis [Program.overallTimer])) := by
  constructor
  · exact fun q => ⟨q.pathParams_link, fun server now now' =>
      replays_of_enqueue (Service.findPath_steady server q.params q.link) rfl rfl
        (q.handle_link server now')⟩
  · exact fun q => ⟨q.networkParams_link, fun server now now' =>
      replays_of_enqueue (Service.findNetwork_steady server q.params q.link) rfl rfl
        (q.handle_link server now')⟩

end CommandLine

end Linkage

import Yaffle.Core.Transition
import Yaffle.Ingest.Submission
import Yaffle.Quickwit

/-! The start of `run_server`: attempts to find or create the index, with a wait
after each that fails, and then the receivers and the ingest loop. -/
namespace Yaffle.Ingest
open Gelf Quickwit Transition

/-- A JSON body is sent as the text of this value, which `to_string` cannot fail on. -/
structure Request where
  method : String
  uri : String
  headers : List (String × String)
  body : Option Json.Value

/-- A request that was sent, and the reply; without a connection there is none. -/
structure Exchange where
  request : Request
  reply : Except String Response

/-- Quickwit as one attempt finds it. -/
abbrev Server := Request → Except String Response

structure Attempted where
  exchanges : List Exchange
  result : Except YaffleError Unit

section Startup
variable (services : Services) (settings : Settings)

def describeUri : String :=
  "/".intercalate [settings.quickwitUrl, "api/v1/indexes", settings.quickwitIndex, "describe"]

def createUri : String := "/".intercalate [settings.quickwitUrl, "api/v1/indexes"]

/-- The reply to the create request. -/
def createResult : Except String Response → Except YaffleError Unit
  | .error e => .error (.hyperClient e)
  | .ok response =>
    if response.isSuccess then .ok ()
    else
      match response.body with
      | .ok body => .error (.createIndex response.status (Utf8.fromUtf8Lossy body))
      | .error e => .error (.hyperClient e)

/-- `get_or_create_index`, against a server that answers its requests. -/
def getOrCreateIndex (server : Server) : Attempted :=
  match services.uriFromStr (describeUri settings) with
  | .error e => ⟨[], .error (.uriBuild e)⟩
  | .ok uri =>
    let describe : Request := ⟨"GET", uri, [], none⟩
    match server describe with
    | .error e => ⟨[⟨describe, .error e⟩], .error (.hyperClient e)⟩
    | .ok response =>
      let described : Exchange := ⟨describe, .ok response⟩
      if response.status = 404 then
        match services.uriFromStr (createUri settings) with
        | .error e => ⟨[described], .error (.uriBuild e)⟩
        | .ok uri =>
          let body := (indexCreateRequest settings.quickwitIndex).serialize
          let create : Request := ⟨"POST", uri, [("Content-Type", "application/json")], some body⟩
          ⟨[described, ⟨create, server create⟩], createResult (server create)⟩
      else ⟨[described], .ok ()⟩

/-- Where `run_server` is. `connectWait` is the next wait in seconds. -/
inductive Phase where
  | connecting (connectWait : Nat)
  | sleeping (connectWait : Nat)
  | serving
  deriving DecidableEq

inductive StartupEvent where
  | attempt (server : Server)
  | wake

/-- The receivers and the ingest loop are started on the way to `serving`. -/
inductive StartupStep : Phase → StartupEvent → Phase → Prop
  | connected (found : (getOrCreateIndex services settings server).result = .ok ()) :
      StartupStep (.connecting connectWait) (.attempt server) .serving
  | refused (failed : (getOrCreateIndex services settings server).result = .error e) :
      StartupStep (.connecting connectWait) (.attempt server) (.sleeping connectWait)
  | wake : StartupStep (.sleeping connectWait) .wake (.connecting (min (connectWait * 2) 10))

abbrev StartupRun : List StartupEvent → Phase → Prop :=
  Reaches (StartupStep services settings) (.connecting 1)

/-- Some request of the attempt was answered with a success status. -/
def IndexConfirmed (server : Server) : Prop :=
  ∃ exchange ∈ (getOrCreateIndex services settings server).exchanges,
    ∃ response, exchange.reply = .ok response ∧ response.isSuccess = true

/-- Every attempt of the run that no success status answers is followed by the
back-off, so that nothing is started without an index. -/
def StartsOnlyWithIndex (events : List StartupEvent) : Prop :=
  ∀ made server later s t, events = made ++ .attempt server :: later →
    StartupRun services settings made s →
    StartupStep services settings s (.attempt server) t →
    (t = .serving → IndexConfirmed services settings server) ∧
      (¬ IndexConfirmed services settings server →
        ∃ connectWait, s = .connecting connectWait ∧ t = .sleeping connectWait ∧
          StartupStep services settings t .wake (.connecting (min (connectWait * 2) 10)))

/-- The describe request, if it is made and answered, tells whether the index exists. -/
def DescribeConclusive (server : Server) : Prop :=
  ∀ uri response, services.uriFromStr (describeUri settings) = .ok uri →
    server ⟨"GET", uri, [], none⟩ = .ok response →
    response.isSuccess = true ∨ response.status = 404

theorem createResult_ok (reply : Except String Response) :
    createResult reply = .ok () ↔ ∃ response, reply = .ok response ∧ response.isSuccess = true := by
  unfold createResult
  cases reply with
  | error e => simp
  | ok response =>
    cases success : response.isSuccess with
    | true => simp [success]
    | false => cases read : response.body <;> simp [success, read]

theorem not_success_of_missing {response : Response} (missing : response.status = 404) :
    response.isSuccess = false := by
  simp [Response.isSuccess, missing]

variable {services settings} {server : Server}

/-- With a conclusive describe reply, an attempt finds the index exactly when some
request of it succeeded. -/
theorem found_iff_confirmed (conclusive : DescribeConclusive services settings server) :
    (getOrCreateIndex services settings server).result = .ok () ↔
      IndexConfirmed services settings server := by
  unfold IndexConfirmed getOrCreateIndex
  cases valid : services.uriFromStr (describeUri settings) with
  | error e => simp
  | ok uri =>
    cases described : server ⟨"GET", uri, [], none⟩ with
    | error e => simp [described]
    | ok response =>
      by_cases missing : response.status = 404
      · have refused := not_success_of_missing missing
        cases services.uriFromStr (createUri settings) with
        | error e => simp [described, missing, refused]
        | ok uri => simp [described, missing, refused, createResult_ok]
      · have success := (conclusive uri response valid described).resolve_right missing
        simp [described, missing, success]

/-- Any other describe reply is taken for an existing index. -/
theorem inconclusive_found (inconclusive : ¬ DescribeConclusive services settings server) :
    (getOrCreateIndex services settings server).result = .ok () ∧
      ¬ IndexConfirmed services settings server := by
  simp only [DescribeConclusive, not_forall, not_or] at inconclusive
  obtain ⟨uri, response, valid, described, refused, missing⟩ := inconclusive
  simp [IndexConfirmed, getOrCreateIndex, valid, described, missing, refused]

/-- A run starts only with an index exactly when every describe reply in it is a
success or says that the index does not exist. -/
theorem starts_only_with_index_iff {events : List StartupEvent} {phase : Phase}
    (run : StartupRun services settings events phase) :
    StartsOnlyWithIndex services settings events ↔
      ∀ server, .attempt server ∈ events → DescribeConclusive services settings server := by
  constructor
  · intro safe server member
    obtain ⟨made, later, split⟩ := List.append_of_mem member
    rw [split] at run
    obtain ⟨s, before, after⟩ := Reaches.append.mp run
    cases after with
    | @next _ _ t _ _ step _ =>
      by_contra inconclusive
      obtain ⟨found, unconfirmed⟩ := inconclusive_found inconclusive
      obtain ⟨started, _⟩ := safe made server later s t split before step
      cases step with
      | connected => exact unconfirmed (started rfl)
      | refused failed => cases found.symm.trans failed
  · intro conclusive made server later s t split _ step
    have decided := found_iff_confirmed (conclusive server (by simp [split]))
    cases step with
    | connected found =>
      refine ⟨fun _ => decided.mp found, ?_⟩
      intro unconfirmed
      exact absurd (decided.mp found) unconfirmed
    | @refused _ _ connectWait failed =>
      refine ⟨by simp, ?_⟩
      intro _
      exact ⟨connectWait, rfl, rfl, .wake⟩

end Startup

/-- A server whose connection is refused, and one without the index that creates it. -/
def sampleStart : List StartupEvent :=
  [.attempt fun _ => .error "connection refused", .wake,
    .attempt fun request => .ok ⟨if request.method = "GET" then 404 else 200, .ok []⟩]

theorem starts_only_with_index_iff_sample :
    StartsOnlyWithIndex sampleServices sampleSettings sampleStart ↔
      ∀ server, .attempt server ∈ sampleStart →
        DescribeConclusive sampleServices sampleSettings server :=
  starts_only_with_index_iff
    (.next (.refused rfl) (.next .wake (.one (.connected rfl))))

/-- A server that is not ready for any request is taken for one with the index. -/
theorem unavailable_starts :
    let unavailable : Server := fun _ => .ok ⟨503, .ok []⟩
    StartupRun sampleServices sampleSettings [.attempt unavailable] .serving ∧
      ¬ IndexConfirmed sampleServices sampleSettings unavailable ∧
      ¬ StartsOnlyWithIndex sampleServices sampleSettings [.attempt unavailable] := by
  intro unavailable
  have inconclusive : ¬ DescribeConclusive sampleServices sampleSettings unavailable := by
    intro conclusive
    have outcome := conclusive _ _ rfl rfl
    simp [Response.isSuccess] at outcome
  obtain ⟨found, unconfirmed⟩ := inconclusive_found inconclusive
  refine ⟨.one (.connected found), unconfirmed, ?_⟩
  intro safe
  exact unconfirmed ((safe [] unavailable [] _ _ rfl (.refl _) (.connected found)).1 rfl)

end Yaffle.Ingest

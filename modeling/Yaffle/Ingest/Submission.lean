import Yaffle.Ingest.Lines

/-! What the outcomes of the requests do to the loop. -/
namespace Yaffle.Ingest
open Gelf Schema Fallible

variable (services : Services)

/-- The body of an error response is lost while it is read for the log. -/
def BodyLost (outcome : Except String Response) : Prop :=
  services.maxLevel.enables .error = true ∧
    ∃ response e, outcome = .ok response ∧ response.isSuccess = false ∧ response.body = .error e

theorem handleOutcome_ok (outcome : Except String Response) :
    handleOutcome services outcome = .ok () ↔ ¬ BodyLost services outcome := by
  unfold handleOutcome BodyLost
  cases outcome with
  | error e => simp
  | ok response =>
    cases success : response.isSuccess with
    | true => simp [success]
    | false =>
      cases logged : services.maxLevel.enables .error with
      | false => simp
      | true => cases read : response.body <;> simp [success, read]

/-- Every chunk is submitted to `uri`, with its own body, and the loop ends when the
channels are closed. -/
def SubmitsAll (settings : Settings) (uri : String) (batches : List Batch) : Prop :=
  ∃ bodies, batches.mapM (fun batch => batchBody services batch.chunk) = .ok bodies ∧
    ingestLoop services settings batches = ⟨bodies.map (uri, ·), .returned (.ok ())⟩

theorem submitsAll_cons {settings : Settings} {uri : String}
    (wellFormed : services.uriFromStr (ingestUri settings) = .ok uri) (batch : Batch)
    (later : List Batch) :
    SubmitsAll services settings uri (batch :: later) ↔
      ((∃ body, batchBody services batch.chunk = .ok body) ∧
        handleOutcome services batch.outcome = .ok ()) ∧
      SubmitsAll services settings uri later := by
  constructor
  · rintro ⟨bodies, built, ran⟩
    obtain ⟨body, rest, first, mapped, rfl⟩ := Exec.mapM_cons_ok.mp built
    rw [ingestLoop, first, wellFormed] at ran
    cases handled : handleOutcome services batch.outcome with
    | error e =>
      simp only [handled] at ran
      have ended := congrArg Run.ending ran
      cases ended
    | ok done =>
      simp only [handled, List.map_cons, Run.mk.injEq, List.cons.injEq, true_and] at ran
      refine ⟨⟨⟨body, first⟩, rfl⟩, rest, mapped, ?_⟩
      rw [← ran.1, ← ran.2]
  · rintro ⟨⟨⟨body, first⟩, handled⟩, rest, mapped, ran⟩
    refine ⟨body :: rest, Exec.mapM_cons_ok.mpr ⟨body, rest, first, mapped, rfl⟩, ?_⟩
    rw [ingestLoop, first, wellFormed]
    simp only [handled, ran, List.map_cons]

theorem submitsAll_iff {settings : Settings} {uri : String}
    (wellFormed : services.uriFromStr (ingestUri settings) = .ok uri) (batches : List Batch) :
    SubmitsAll services settings uri batches ↔
      ∀ batch ∈ batches, (∃ body, batchBody services batch.chunk = .ok body) ∧
        handleOutcome services batch.outcome = .ok () := by
  induction batches with
  | nil => exact iff_of_true ⟨[], rfl, rfl⟩ (by simp)
  | cons batch later ih =>
    rw [submitsAll_cons services wellFormed, ih, List.forall_mem_cons]

/-- No outcome ends the loop but an error response whose body is lost. -/
theorem failures_cost_own_batch_iff (settings : Settings) (uri : String)
    (wellFormed : services.uriFromStr (ingestUri settings) = .ok uri) (batches : List Batch) :
    SubmitsAll services settings uri batches ↔
      (∀ batch ∈ batches, ∀ arrival ∈ batch.chunk.arrivals, arrival.Convertible) ∧
        ∀ batch ∈ batches, ¬ BodyLost services batch.outcome := by
  rw [submitsAll_iff services wellFormed]
  simp only [batchBody_ok_iff, handleOutcome_ok, forall_and]

/-- A server error whose connection is lost inside the body, and a later batch. -/
def lostBatches : List Batch :=
  let chunk (message : String) : Chunk := ⟨[sampleArrival message], List.cons_ne_nil _ _⟩
  [⟨chunk "first", .ok ⟨503, .error "connection closed before message completed"⟩⟩,
    ⟨chunk "second", .ok ⟨200, .ok []⟩⟩]

def sampleSettings : Settings := ⟨"http://localhost:7280", "yaffle_logs"⟩

theorem failures_cost_own_batch_iff_lost :
    SubmitsAll sampleServices sampleSettings "http://localhost:7280/api/v1/yaffle_logs/ingest"
        lostBatches ↔
      (∀ batch ∈ lostBatches, ∀ arrival ∈ batch.chunk.arrivals, arrival.Convertible) ∧
        ∀ batch ∈ lostBatches, ¬ BodyLost sampleServices batch.outcome :=
  failures_cost_own_batch_iff sampleServices sampleSettings
    "http://localhost:7280/api/v1/yaffle_logs/ingest" rfl lostBatches

/-- Every record can be converted, yet the second batch is never submitted. -/
theorem lost_body_ends_loop :
    (∀ batch ∈ lostBatches, ∀ arrival ∈ batch.chunk.arrivals, arrival.Convertible) ∧
      ∃ body, ingestLoop sampleServices sampleSettings lostBatches =
        ⟨[("http://localhost:7280/api/v1/yaffle_logs/ingest", body)],
          .returned (.error (.hyperClient "connection closed before message completed"))⟩ := by
  have convertible : ∀ batch ∈ lostBatches, ∀ arrival ∈ batch.chunk.arrivals,
      arrival.Convertible := by
    intro batch member arrival inside
    simp only [lostBatches, List.mem_cons, List.not_mem_nil, or_false] at member
    rcases member with rfl | rfl <;> cases List.mem_singleton.mp inside <;>
      exact sampleArrival_convertible _
  obtain ⟨body, built⟩ := (batchBody_ok_iff sampleServices _).mpr
    (convertible _ List.mem_cons_self)
  refine ⟨convertible, body, ?_⟩
  rw [lostBatches, ingestLoop, built]
  rfl

end Yaffle.Ingest

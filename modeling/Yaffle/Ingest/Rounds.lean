import Yaffle.Ingest.Loop

/-! The ingest loop round by round: what one batch adds to a run that goes on. -/
namespace Yaffle.Ingest
open Gelf

section Rounds
variable (services : Services) (settings : Settings)

/-- The body of the loop: the request that it makes, and how it ends the loop, if it
does. -/
def ingestRound (batch : Batch) : Option (String × Bytes) × Option Ending :=
  match batchBody services batch.chunk with
  | .error panic => (none, some (.panicked panic))
  | .ok body =>
    match services.uriFromStr (ingestUri settings) with
    | .error e => (none, some (.returned (.error (.uriBuild e))))
    | .ok uri =>
      match handleOutcome services batch.outcome with
      | .error e => (some (uri, body), some (.returned (.error e)))
      | .ok () => (some (uri, body), none)

/-- A run with the ending that it has while the channels are open. -/
def Run.goesOn (run : Run) : Prop := run.ending = .returned (.ok ())

theorem ingestLoop_cons (batch : Batch) (later : List Batch) :
    ingestLoop services settings (batch :: later) =
      let round := ingestRound services settings batch
      let rest := ingestLoop services settings later
      match round.2 with
      | some ending => ⟨round.1.toList, ending⟩
      | none => ⟨round.1.toList ++ rest.submitted, rest.ending⟩ := by
  rw [ingestLoop, ingestRound]
  cases batchBody services batch.chunk with
  | error panic => rfl
  | ok body =>
    cases services.uriFromStr (ingestUri settings) with
    | error e => rfl
    | ok uri => cases handleOutcome services batch.outcome <;> rfl

/-- No round ends the loop as the closed channels do. -/
theorem ingestRound_ending (batch : Batch) :
    (ingestRound services settings batch).2 ≠ some (.returned (.ok ())) := by
  unfold ingestRound
  cases batchBody services batch.chunk with
  | error panic => simp
  | ok body =>
    cases services.uriFromStr (ingestUri settings) with
    | error e => simp
    | ok uri => cases handleOutcome services batch.outcome <;> simp

/-- A round makes its request, or ends the loop before it. -/
theorem ingestRound_request (batch : Batch) :
    (∃ uri body, batchBody services batch.chunk = .ok body ∧
      (ingestRound services settings batch).1 = some (uri, body)) ∨
    (ingestRound services settings batch).1 = none ∧
      ∃ ending, (ingestRound services settings batch).2 = some ending := by
  unfold ingestRound
  cases batchBody services batch.chunk with
  | error panic => exact .inr ⟨rfl, _, rfl⟩
  | ok body =>
    cases services.uriFromStr (ingestUri settings) with
    | error e => exact .inr ⟨rfl, _, rfl⟩
    | ok uri =>
      refine .inl ⟨uri, body, rfl, ?_⟩
      cases handleOutcome services batch.outcome <;> rfl

/-- A round after a run that goes on. -/
theorem ingestLoop_append {batches : List Batch}
    (going : (ingestLoop services settings batches).goesOn) (batch : Batch) :
    ingestLoop services settings (batches ++ [batch]) =
      let round := ingestRound services settings batch
      ⟨(ingestLoop services settings batches).submitted ++ round.1.toList,
        round.2.getD (.returned (.ok ()))⟩ := by
  induction batches with
  | nil =>
    rw [List.nil_append, ingestLoop_cons]
    cases ended : (ingestRound services settings batch).2 <;> simp [ingestLoop, ended]
  | cons first later ih =>
    rw [ingestLoop_cons] at going
    rw [List.cons_append, ingestLoop_cons, ingestLoop_cons]
    cases ended : (ingestRound services settings first).2 with
    | some ending =>
      simp only [ended, Run.goesOn] at going
      exact absurd (going ▸ ended) (ingestRound_ending services settings first)
    | none =>
      simp only [ended] at going ⊢
      rw [ih going, List.append_assoc]

end Rounds
end Yaffle.Ingest

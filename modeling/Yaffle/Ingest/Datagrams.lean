import Yaffle.Ingest.Lines

/-! Which datagrams the pipeline survives: the parsers accept instants that the
conversions to nanoseconds cannot represent. -/
namespace Yaffle.Ingest
open Nom hiding Bytes
open Chrono Gelf Syslog Schema Fallible

/-- The input after the PRI, if there is one. -/
def afterPri (input : Bytes) : Bytes := ((prioAndFacility input).map Prod.fst).getD input

/-- The instant of a syslog datagram: its timestamp, or the current time without one. -/
def stampOf (env : Environment) (input : Bytes) : DateTime :=
  ((timestamp env (afterPri input)).map Prod.snd).getD env.now

/-- Every datagram is a message, with nothing left over. -/
theorem parseSyslog_stamp (env : Environment) (input : Bytes) :
    ∃ m, parseSyslog env input = some ([], m) ∧ m.source_timestamp = stampOf env input := by
  obtain ⟨tail, read⟩ : ∃ tail, parts env input =
      some ([], (prioAndFacility input).map Prod.snd,
        (timestamp env (afterPri input)).map Prod.snd, tail) :=
    ⟨_, pair_some (opt_eq _ input) (pair_some (opt_eq _ (afterPri input))
      (pair_some (opt_eq _ _) (pair_some (opt_eq _ _) rfl)))⟩
  exact ⟨_, map_some (messageOfParts env input) read, rfl⟩

theorem syslog_survives (env : Environment) (input : Bytes) :
    (∃ m, parseSyslog env input = some ([], m) ∧ (fromSyslog env m).Survives) ↔
      (stampOf env input).Convertible env.overflowChecks := by
  obtain ⟨m, parsed, stamp⟩ := parseSyslog_stamp env input
  rw [← stamp, ← fromSyslog_survives]
  constructor
  · rintro ⟨other, again, survives⟩
    cases parsed.symm.trans again
    exact survives
  · intro survives
    exact ⟨m, parsed, survives⟩

theorem ingestLoop_not_panicked (services : Services) (settings : Settings) {batches : List Batch}
    (convertible : ∀ batch ∈ batches, ∀ arrival ∈ batch.chunk.arrivals, arrival.Convertible)
    (panic : Panic) : (ingestLoop services settings batches).ending ≠ .panicked panic := by
  induction batches with
  | nil => rintro ⟨⟩
  | cons batch later ih =>
    obtain ⟨own, rest⟩ := List.forall_mem_cons.mp convertible
    obtain ⟨body, built⟩ := (batchBody_ok_iff services batch.chunk).mpr own
    rw [ingestLoop, built]
    dsimp only
    cases services.uriFromStr (ingestUri settings) with
    | error e => rintro ⟨⟩
    | ok uri =>
      cases handleOutcome services batch.outcome with
      | error e => rintro ⟨⟩
      | ok done => exact ih rest

/-- The pipeline goes on after a datagram or a message exactly when reading the nanoseconds
of its instant does not overflow, or its conversion ends before the instant is reached. -/
theorem pipeline_survives_iff (env : Environment) (services : Services) :
    (∀ datagram, (∃ m, parseSyslog env datagram = some ([], m) ∧ (fromSyslog env m).Survives) ↔
      (stampOf env datagram).Convertible env.overflowChecks) ∧
    (∀ msg, (fromGelf env msg).Survives ↔ RejectedEarlier env msg ∨
      ∀ val, msg.other.lookup "_SYSLOG_TIMESTAMP" = some val → TimestampFits env val) ∧
    (∀ chunk, (∃ body, batchBody services chunk = .ok body) ↔
      ∀ arrival ∈ chunk.arrivals, arrival.Convertible) ∧
    ∀ settings batches,
      (∀ batch ∈ batches, ∀ arrival ∈ batch.chunk.arrivals, arrival.Convertible) →
        ∀ panic, (ingestLoop services settings batches).ending ≠ .panicked panic := by
  refine ⟨syslog_survives env, fromGelf_survives env, batchBody_ok_iff services, ?_⟩
  intro settings batches convertible panic
  exact ingestLoop_not_panicked services settings convertible panic

/-- A clock in 2023, and a timestamp that parses in the year 2300. -/
def farEnvironment : Environment where
  overflowChecks := true
  now := .ofSeconds 1697062455
  year := 2023
  fromLocalDatetime := fixedOffset 0
  parseFromRfc3339 s :=
    if s = "2300-01-01T00:00:00Z" then some (.ofSeconds 10413792000) else none
  parseFromRfc2822 _ := none
  parseFromStr _ := none

theorem far_timestamp_panics :
    ∃ m, parseSyslog farEnvironment (Utf8.encode "<1>1 2300-01-01T00:00:00Z x") = some ([], m) ∧
      ¬ (fromSyslog farEnvironment m).Survives := by
  have split : Utf8.encode "<1>1 2300-01-01T00:00:00Z x" = Utf8.encode (priText 1) ++
      (Utf8.encode "1" ++ (Utf8.encode " " ++ (Utf8.encode "2300-01-01T00:00:00Z" ++
        0x20 :: Utf8.encode "x"))) := by
    decide
  have after := prioAndFacility_text 1 (Utf8.encode "1" ++ (Utf8.encode " " ++
    (Utf8.encode "2300-01-01T00:00:00Z" ++ 0x20 :: Utf8.encode "x")))
  have read : timestamp farEnvironment (Utf8.encode "1" ++ (Utf8.encode " " ++
      (Utf8.encode "2300-01-01T00:00:00Z" ++ 0x20 :: Utf8.encode "x"))) =
        some (0x20 :: Utf8.encode "x", .ofSeconds 10413792000) :=
    timestamp_versioned (by simp) (by simp) (by simp) rfl _
  obtain ⟨m, parsed, stamp⟩ := parseSyslog_stamp farEnvironment
    (Utf8.encode "<1>1 2300-01-01T00:00:00Z x")
  refine ⟨m, parsed, ?_⟩
  rw [fromSyslog_survives, stamp, stampOf, afterPri, split, after, Option.map_some,
    Option.getD_some, read]
  decide

end Yaffle.Ingest

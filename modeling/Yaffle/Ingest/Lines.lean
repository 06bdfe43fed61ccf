import Yaffle.Ingest.Batch
import Yaffle.Syslog.Versioned

/-! The request bodies carry one line for each accepted record, wherever the stream
is cut into chunks. -/
namespace Yaffle.Ingest
open Gelf Syslog Schema Fallible

/-- The conversion is `Ok` and its document valid. -/
def Arrival.isAccepted (arrival : Arrival) : Bool :=
  match arrival.decode.run with
  | .ok (.ok doc) => doc.isValid
  | _ => false

/-- The name that the source address resolves to, or the address itself. -/
def Arrival.sourceName (arrival : Arrival) : String :=
  match arrival.lookup with
  | some (some name) => name
  | _ => arrival.srcIp

/-- Only a missing hostname is filled in. -/
structure FilledFrom (arrival : Arrival) (doc stored : Document) : Prop where
  kept : ∀ host, doc.hostname = some host → stored = doc
  filled : doc.hostname = none →
    stored = doc.set Document.hostnamePosition (some arrival.sourceName)

/-- The line decodes to the document of the record. -/
def Carries (serde : SerdeJson) (arrival : Arrival) (line : Bytes) : Prop :=
  ∃ doc stored, arrival.decode.Accepts doc ∧ doc.isValid = true ∧ FilledFrom arrival doc stored ∧
    Document.fromSlice serde line = some stored

theorem doReverseDns_filledFrom (arrival : Arrival) (doc : Document) :
    FilledFrom arrival doc (doc.doReverseDns arrival.srcIp arrival.lookup) := by
  constructor
  · intro host named
    rw [Document.doReverseDns, named]
    rfl
  · intro unnamed
    rw [Document.doReverseDns, unnamed, Arrival.sourceName]
    rcases arrival.lookup with _ | _ | name <;> rfl

theorem stored_of_accepted {arrival : Arrival} (accepted : arrival.isAccepted = true) :
    ∃ doc, arrival.decode.Accepts doc ∧ doc.isValid = true ∧
      arrival.stored = some (doc.doReverseDns arrival.srcIp arrival.lookup) := by
  unfold Arrival.isAccepted at accepted
  split at accepted
  · rename_i doc returned
    exact ⟨doc, returned, accepted, by rw [Arrival.stored, returned]; exact if_pos accepted⟩
  · contradiction

theorem stored_of_not_accepted {arrival : Arrival} (rejected : arrival.isAccepted = false) :
    arrival.stored = none := by
  unfold Arrival.isAccepted at rejected
  unfold Arrival.stored
  split
  · rename_i doc returned
    rw [returned] at rejected
    exact if_neg (by simp [rejected])
  · rfl

variable (services : Services)

theorem lines_carry (faithful : services.serde.Faithful) (arrivals : List Arrival) :
    List.Forall₂ (Carries services.serde) (arrivals.filter Arrival.isAccepted)
      (lines services arrivals) := by
  induction arrivals with
  | nil => exact .nil
  | cons arrival arrivals ih =>
    unfold lines at ih ⊢
    cases accepted : arrival.isAccepted with
    | true =>
      obtain ⟨doc, decoded, valid, stored⟩ := stored_of_accepted accepted
      rw [List.filter_cons_of_pos accepted, List.filterMap_cons_some stored, List.map_cons]
      refine .cons ⟨doc, _, decoded, valid, doReverseDns_filledFrom arrival doc, ?_⟩ ih
      exact fromSlice_toWriter faithful _
    | false =>
      rw [List.filter_cons_of_neg (by simp [accepted]),
        List.filterMap_cons_none (stored_of_not_accepted accepted)]
      exact ih

theorem lines_whole (faithful : services.serde.Faithful) (arrivals : List Arrival) :
    ∀ line ∈ lines services arrivals, newline ∉ line := by
  intro line member broken
  obtain ⟨doc, _, rfl⟩ := List.mem_map.mp member
  have printable := faithful.escapes _ newline broken
  contradiction

/-- The loop submits the bodies of its chunks, up to where it ends. -/
theorem ingestLoop_submitted (settings : Settings) {batches : List Batch} {bodies : List Bytes}
    (built : batches.mapM (fun batch => batchBody services batch.chunk) = .ok bodies) :
    (ingestLoop services settings batches).submitted.map Prod.snd <+: bodies ∧
      ((ingestLoop services settings batches).ending = .returned (.ok ()) →
        (ingestLoop services settings batches).submitted.map Prod.snd = bodies) := by
  induction batches generalizing bodies with
  | nil =>
    cases built
    exact ⟨List.nil_prefix, fun _ => rfl⟩
  | cons batch later ih =>
    obtain ⟨body, rest, first, mapped, rfl⟩ := Exec.mapM_cons_ok.mp built
    obtain ⟨submitted, complete⟩ := ih mapped
    rw [ingestLoop, first]
    dsimp only
    cases services.uriFromStr (ingestUri settings) with
    | error e => exact ⟨List.nil_prefix, fun returned => by cases returned⟩
    | ok uri =>
      cases handleOutcome services batch.outcome with
      | error e => exact ⟨⟨rest, rfl⟩, fun returned => by cases returned⟩
      | ok done =>
        refine ⟨List.cons_prefix_cons.mpr ⟨rfl, submitted⟩, fun returned => ?_⟩
        exact congrArg (body :: ·) (complete returned)

theorem batchBodies_eq {batches : List Batch}
    (calm : ∀ arrival ∈ batches.flatMap (·.chunk.arrivals), arrival.decode.Survives) :
    batches.mapM (fun batch => batchBody services batch.chunk) =
      .ok (batches.map fun batch => terminate (lines services batch.chunk.arrivals)) := by
  refine Exec.mapM_eq_map fun batch member => batchBody_eq services fun arrival inside => ?_
  exact calm arrival (List.mem_flatMap.mpr ⟨batch, member, inside⟩)

theorem flatten_bodies (batches : List Batch) :
    (batches.map fun batch => terminate (lines services batch.chunk.arrivals)).flatten =
      terminate (lines services (batches.flatMap (·.chunk.arrivals))) := by
  induction batches with
  | nil => rfl
  | cons batch later ih =>
    rw [List.map_cons, List.flatten_cons, ih, List.flatMap_cons, lines_append, terminate_append]

/-- What the bodies carry depends on the records only. -/
theorem batches_carry_accepted (faithful : services.serde.Faithful) (arrivals : List Arrival)
    (calm : ∀ arrival ∈ arrivals, arrival.decode.Survives) :
    ∃ text lines, text.splitOn newline = lines ++ [[]] ∧
      List.Forall₂ (Carries services.serde) (arrivals.filter Arrival.isAccepted) lines ∧
      ∀ settings batches, batches.flatMap (fun batch => batch.chunk.arrivals) = arrivals →
        ∃ bodies, batches.mapM (fun batch => batchBody services batch.chunk) = .ok bodies ∧
          bodies.flatten = text ∧
          (ingestLoop services settings batches).submitted.map Prod.snd <+: bodies ∧
          ((ingestLoop services settings batches).ending = .returned (.ok ()) →
            (ingestLoop services settings batches).submitted.map Prod.snd = bodies) := by
  refine ⟨_, lines services arrivals, splitOn_terminate (lines_whole services faithful arrivals),
    lines_carry services faithful arrivals, ?_⟩
  rintro settings batches rfl
  have built := batchBodies_eq services calm
  exact ⟨_, built, flatten_bodies services batches, ingestLoop_submitted services settings built⟩

/-- Every text is taken for a URI, and errors are logged. -/
def sampleServices : Services where
  serde := jsonText
  uriFromStr := .ok
  maxLevel := .error

/-- A syslog message of this text, without a hostname, that the address `::1` sent. -/
def sampleArrival (message : String) : Arrival where
  srcIp := "::1"
  record := .syslog ⟨5, "user", .ofSeconds 1697062455, none, none, none, message, message⟩
  env := sampleEnvironment
  lookup := some none

theorem sampleArrival_convertible (message : String) : (sampleArrival message).Convertible := by
  have convertible : (Chrono.DateTime.ofSeconds 1697062455).Convertible
      sampleEnvironment.overflowChecks := by
    decide
  exact convertible

theorem batches_carry_accepted_sample :
    let arrivals := [sampleArrival "two\nlines", sampleArrival "", sampleArrival "\x7d\n\x7b"]
    ∃ text lines, text.splitOn newline = lines ++ [[]] ∧
      List.Forall₂ (Carries sampleServices.serde) (arrivals.filter Arrival.isAccepted) lines ∧
      ∀ settings batches, batches.flatMap (fun batch => batch.chunk.arrivals) = arrivals →
        ∃ bodies, batches.mapM (fun batch => batchBody sampleServices batch.chunk) = .ok bodies ∧
          bodies.flatten = text ∧
          (ingestLoop sampleServices settings batches).submitted.map Prod.snd <+: bodies ∧
          ((ingestLoop sampleServices settings batches).ending = .returned (.ok ()) →
            (ingestLoop sampleServices settings batches).submitted.map Prod.snd = bodies) := by
  refine batches_carry_accepted sampleServices jsonText_faithful _ ?_
  intro arrival member
  simp only [List.mem_cons, List.not_mem_nil, or_false] at member
  rcases member with rfl | rfl | rfl <;>
    exact (decode_survives _).mpr (sampleArrival_convertible _)

end Yaffle.Ingest

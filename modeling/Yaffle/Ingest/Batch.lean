import Yaffle.Ingest.Loop
import Yaffle.Schema.Survival

/-! What a batch body is made of: when it is built at all, and the lines it carries. -/
namespace Yaffle.Ingest
open Gelf Syslog Schema Fallible

/-- The record can be converted: reading the nanoseconds of its instants does not overflow,
or a key before the instant is rejected. -/
def Arrival.Convertible (arrival : Arrival) : Prop :=
  match arrival.record with
  | .gelf msg => RejectedEarlier arrival.env msg ∨
      ∀ val, msg.other.lookup "_SYSLOG_TIMESTAMP" = some val → TimestampFits arrival.env val
  | .syslog msg => msg.source_timestamp.Convertible arrival.env.overflowChecks

theorem decode_survives (arrival : Arrival) : arrival.decode.Survives ↔ arrival.Convertible := by
  unfold Arrival.decode Arrival.Convertible
  cases arrival.record with
  | gelf msg => exact fromGelf_survives arrival.env msg
  | syslog msg => exact fromSyslog_survives arrival.env msg

/-- The document that a record adds to the batch, if any. -/
def Arrival.stored (arrival : Arrival) : Option Document :=
  match arrival.decode.run with
  | .ok (.ok doc) =>
    if doc.isValid then some (doc.doReverseDns arrival.srcIp arrival.lookup) else none
  | _ => none

def terminate (lines : List Bytes) : Bytes := lines.flatMap (· ++ [newline])

theorem terminate_append (first second : List Bytes) :
    terminate (first ++ second) = terminate first ++ terminate second :=
  List.flatMap_append

theorem splitOn_terminate {lines : List Bytes} (whole : ∀ line ∈ lines, newline ∉ line) :
    (terminate lines).splitOn newline = lines ++ [[]] := by
  induction lines with
  | nil => rfl
  | cons line lines ih =>
    have later := ih fun other member => whole other (List.mem_cons_of_mem _ member)
    have shape : terminate (line :: lines) = line ++ newline :: terminate lines := by
      simp [terminate]
    rw [shape, List.splitOn_append_cons_self_of_not_mem (whole line List.mem_cons_self), later]
    rfl

section Body
variable (services : Services)

def lines (arrivals : List Arrival) : List Bytes :=
  (arrivals.filterMap Arrival.stored).map (Document.toWriter services.serde)

theorem lines_append (first second : List Arrival) :
    lines services (first ++ second) = lines services first ++ lines services second := by
  simp only [lines, List.filterMap_append, List.map_append]

theorem appendRecord_eq {arrival : Arrival} (survives : arrival.decode.Survives) (buffer : Bytes) :
    appendRecord services buffer arrival = .ok (buffer ++ terminate (lines services [arrival])) := by
  obtain ⟨result, returned⟩ := survives
  unfold appendRecord lines
  rw [returned, Exec.ok_bind, List.filterMap_cons, List.filterMap_nil, Arrival.stored, returned]
  cases result with
  | error e => simp [terminate]
  | ok doc => cases valid : doc.isValid <;> simp [terminate, valid]

theorem appendRecord_panics {arrival : Arrival} (dies : ¬ arrival.decode.Survives) (buffer : Bytes) :
    ∃ panic, appendRecord services buffer arrival = .error panic := by
  unfold appendRecord
  cases returned : arrival.decode.run with
  | ok result => exact absurd ⟨result, returned⟩ dies
  | error panic => exact ⟨panic, rfl⟩

theorem foldlM_appendRecord {arrivals : List Arrival}
    (survive : ∀ arrival ∈ arrivals, arrival.decode.Survives) (buffer : Bytes) :
    arrivals.foldlM (appendRecord services) buffer =
      .ok (buffer ++ terminate (lines services arrivals)) := by
  induction arrivals generalizing buffer with
  | nil => simp [lines, terminate]
  | cons arrival arrivals ih =>
    rw [List.foldlM_cons, appendRecord_eq services (survive arrival List.mem_cons_self),
      Exec.ok_bind, ih fun other member => survive other (List.mem_cons_of_mem _ member),
      List.append_assoc, ← terminate_append, ← lines_append]
    rfl

theorem foldlM_appendRecord_panics {arrivals : List Arrival} {arrival : Arrival}
    (member : arrival ∈ arrivals) (dies : ¬ arrival.decode.Survives) (buffer : Bytes) :
    ∃ panic, arrivals.foldlM (appendRecord services) buffer = .error panic := by
  induction arrivals generalizing buffer with
  | nil => contradiction
  | cons first arrivals ih =>
    rw [List.foldlM_cons]
    by_cases survives : first.decode.Survives
    · rw [appendRecord_eq services survives, Exec.ok_bind]
      rcases List.mem_cons.mp member with rfl | member
      · exact absurd survives dies
      · exact ih member _
    · obtain ⟨panic, died⟩ := appendRecord_panics services survives buffer
      rw [died]
      exact ⟨panic, rfl⟩

/-- A chunk is not empty, so its average can be taken. -/
theorem batchBody_eq_foldlM (chunk : Chunk) :
    batchBody services chunk = chunk.arrivals.foldlM (appendRecord services) [] := by
  have count : chunk.arrivals.length ≠ 0 := fun empty =>
    chunk.nonempty (List.length_eq_zero_iff.mp empty)
  unfold batchBody average
  cases chunk.arrivals.foldlM (appendRecord services) [] with
  | error panic => rfl
  | ok buffer =>
    rw [Exec.ok_bind, if_neg count]
    split <;> rfl

theorem batchBody_eq {chunk : Chunk}
    (survive : ∀ arrival ∈ chunk.arrivals, arrival.decode.Survives) :
    batchBody services chunk = .ok (terminate (lines services chunk.arrivals)) := by
  rw [batchBody_eq_foldlM, foldlM_appendRecord services survive, List.nil_append]

theorem batchBody_ok_iff (chunk : Chunk) :
    (∃ body, batchBody services chunk = .ok body) ↔
      ∀ arrival ∈ chunk.arrivals, arrival.Convertible := by
  simp only [← decode_survives]
  constructor
  · rintro ⟨body, built⟩ arrival member
    by_contra dies
    obtain ⟨panic, died⟩ := foldlM_appendRecord_panics services member dies []
    rw [batchBody_eq_foldlM, died] at built
    contradiction
  · intro survive
    exact ⟨_, batchBody_eq services survive⟩

end Body
end Yaffle.Ingest

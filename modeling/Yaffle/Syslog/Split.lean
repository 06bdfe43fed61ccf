import Yaffle.Core.Consumption
import Yaffle.Syslog.Parse

/-! How a datagram splits into the bytes its parts took. A part that is absent,
or that fails after reading some of its bytes, leaves all of them to the next. -/
namespace Yaffle.Syslog
open Nom Chrono

theorem consumes_prioAndFacility : Consumes prioAndFacility :=
  ((((consumes_char _).delimited (consumes_takeWhile1 _) (consumes_char _)).mapRes _).mapRes _).map
    _

theorem consumes_rfc3339Timestamp (env : Environment) : Consumes (rfc3339Timestamp env) :=
  ((consumes_takeUntil _).mapRes _).mapRes _

theorem consumes_month : Consumes month := by
  unfold month
  repeat refine Consumes.alt_cons ((consumes_tag _).value _) ?_
  exact consumes_alt_nil

theorem consumes_day : Consumes day := by
  have padded := (consumes_tag (Utf8.encode " ")).preceded (consumes_takeWhileMN 1 1 isDigit)
  have digits := padded.alt_cons ((consumes_takeWhileMN 2 2 isDigit).alt_cons consumes_alt_nil)
  exact ((digits.terminated (consumes_tag _)).mapRes _).mapRes _

theorem consumes_time : Consumes time := by
  have two := consumes_takeWhileMN 2 2 isDigit
  have clock := (two.separatedPair (consumes_tag (Utf8.encode ":")) two).separatedPair
    (consumes_tag (Utf8.encode ":")) two
  exact ((clock.recognize.terminated (consumes_tag _)).mapRes _).mapRes _

theorem consumes_rfc3164Timestamp (env : Environment) : Consumes (rfc3164Timestamp env) :=
  ((consumes_month.pair (consumes_day.pair consumes_time)).mapRes _).mapRes _

theorem consumes_timestamp (env : Environment) : Consumes (timestamp env) := by
  have version := (consumes_takeWhile1 isDigit).terminated (consumes_tag (Utf8.encode " "))
  exact (version.preceded (consumes_rfc3339Timestamp env)).alt_cons
    ((consumes_rfc3164Timestamp env).alt_cons consumes_alt_nil)

theorem consumes_hostname : Consumes hostname :=
  (consumes_takeWhile1 _).terminated (consumes_tag _)

theorem consumes_pid : Consumes pid :=
  (((consumes_tag _).preceded ((consumes_takeWhile1 _).terminated (consumes_tag _))).mapRes
    _).mapRes _

theorem consumes_identifierAndPid : Consumes identifierAndPid :=
  ((consumes_takeWhile1 _).pair consumes_pid.opt).terminated (consumes_tag _)

/-- An identifier took its name, the pid if there is one, and a colon and a space. -/
theorem identifierAndPid_took {consumed remaining name : Bytes} {number : Option UInt64}
    (ran : identifierAndPid (consumed ++ remaining) = some (remaining, name, number)) :
    ∃ pidBytes, consumed = name ++ pidBytes ++ Utf8.encode ": " ∧
      Took pid pidBytes (Utf8.encode ": " ++ remaining) number := by
  obtain ⟨⟨left, both, closing⟩, inner, same⟩ := Option.map_eq_some_iff.mp ran
  cases same
  obtain ⟨body, separator, whole, ranBody, ranTag⟩ :=
    ((consumes_takeWhile1 _).pair consumes_pid.opt).pair_split (consumes_tag _) inner
  obtain rfl := tag_took ranTag
  obtain ⟨ident, pidBytes, shape, ranName, ranPid⟩ :=
    (consumes_takeWhile1 _).pair_split consumes_pid.opt ranBody
  obtain rfl := takeWhile1_took ranName
  refine ⟨pidBytes, ?_, took_of_opt ranPid⟩
  have bodyShape : body = ident ++ pidBytes := List.append_cancel_right shape
  rw [← bodyShape]
  exact List.append_cancel_right whole

/-- The bytes that each part of a datagram took, what it read, and the bytes of
the message. -/
structure Split where
  pri : Bytes
  stamp : Bytes
  host : Bytes
  ident : Bytes
  message : Bytes
  prioFac : Option (UInt8 × String)
  ts : Option DateTime
  hostname : Option Bytes
  identAndPid : Option (Bytes × Option UInt64)

/-- The parts were tried one after the other, each where the one before stopped. -/
structure Split.Divides (split : Split) (env : Environment) (input : Bytes) : Prop where
  whole : input = split.pri ++ (split.stamp ++ (split.host ++ (split.ident ++ split.message)))
  pri : Took prioAndFacility split.pri
    (split.stamp ++ (split.host ++ (split.ident ++ split.message))) split.prioFac
  stamp : Took (timestamp env) split.stamp (split.host ++ (split.ident ++ split.message)) split.ts
  host : Took Syslog.hostname split.host (split.ident ++ split.message) split.hostname
  ident : Took identifierAndPid split.ident split.message split.identAndPid
  pid : ∀ name number, split.identAndPid = some (name, number) →
    ∃ pidBytes, split.ident = name ++ pidBytes ++ Utf8.encode ": " ∧
      Took Syslog.pid pidBytes (Utf8.encode ": " ++ split.message) number

/-- Nothing stands before the message but the PRI. -/
def Split.Bare (split : Split) : Prop :=
  split.ts = none ∧ split.hostname = none ∧ split.identAndPid = none

def Split.parts (split : Split) : Parts :=
  (split.prioFac, split.ts, split.hostname, split.identAndPid, split.message)

theorem parts_split (env : Environment) (input : Bytes) :
    ∃ split : Split, split.Divides env input ∧ parts env input = some ([], split.parts) := by
  obtain ⟨pri, afterPri, prioFac, rfl, tookPri, ranPri⟩ := consumes_prioAndFacility.split input
  obtain ⟨stamp, afterStamp, ts, rfl, tookStamp, ranStamp⟩ :=
    (consumes_timestamp env).split afterPri
  obtain ⟨host, afterHost, hostname, rfl, tookHost, ranHost⟩ :=
    consumes_hostname.split afterStamp
  obtain ⟨ident, message, identAndPid, rfl, tookIdent, ranIdent⟩ :=
    consumes_identifierAndPid.split afterHost
  refine ⟨⟨pri, stamp, host, ident, message, prioFac, ts, hostname, identAndPid⟩,
    ⟨rfl, tookPri, tookStamp, tookHost, tookIdent, ?_⟩,
    pair_some ranPri (pair_some ranStamp (pair_some ranHost (pair_some ranIdent rfl)))⟩
  rintro name number rfl
  exact identifierAndPid_took tookIdent

theorem messageText_space (rest : Bytes) :
    Utf8.fromUtf8Lossy (0x20 :: rest) = " " ++ messageText true (0x20 :: rest) := by
  have read := Utf8.fromUtf8Lossy_ascii (c := ' ') (by decide) rest
  apply String.toList_injective
  change (Utf8.fromUtf8Lossy (0x20 :: rest)).toList = _ at read
  simp [messageText, read]

theorem messageText_other {msg : Bytes} (other : msg.head? ≠ some 0x20) (bare : Bool) :
    messageText bare msg = Utf8.fromUtf8Lossy msg := by
  unfold messageText
  dsimp only
  split
  · split
    case h_1 stripped decoded =>
      exact absurd (Utf8.fromUtf8Lossy_head (c := ' ') (by decide) decoded) other
    case h_2 => rfl
  · rfl

end Yaffle.Syslog

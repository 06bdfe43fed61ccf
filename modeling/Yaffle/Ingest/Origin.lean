import Yaffle.Ingest.HostNames
import Yaffle.Ingest.Lines

/-! Which documents depend on where their datagram came from. -/
namespace Yaffle.Ingest
open Chrono Gelf Json Syslog Schema Fallible

section Gelf
variable {env : Environment} {msg : GELFMessage} {doc : Document}

/-- A field whose first key is always there has the value of that key, whatever the later
keys have. -/
theorem constructorExpr_of_first {accessor : σ → Conversion (Option α)} {source : σ}
    {sources : List σ} {x : α} {a : Option α} (first : (accessor source).Accepts (some x))
    (accepted : (constructorExpr accessor (source :: sources)).Accepts a) : a = some x := by
  rw [constructorExpr] at accepted
  obtain ⟨existing, found, rest⟩ := accepts_bind.mp accepted
  obtain ⟨later, _, result⟩ := accepts_bind.mp rest
  cases first.symm.trans found
  exact (accepts_pure_iff.mp result).symm

/-- The host and the text of a GELF message are members of the struct, so that no other
key is ever asked for them. -/
theorem fromGelf_fields (accepted : (fromGelf env msg).Accepts doc) :
    doc.hostname = some msg.host ∧ doc.message = some msg.short_message := by
  have fields := Record.build_accepts.mp accepted
  have host : (gelfExpr env msg (.none "host" : FromGelf .string)).Accepts (some msg.host) := rfl
  have text : (gelfExpr env msg (.none "short_message" : FromGelf .string)).Accepts
      (some msg.short_message) := rfl
  constructor
  · exact constructorExpr_of_first host (fields _ Document.hostnamePosition)
  · exact constructorExpr_of_first text (fields _ Document.messagePosition)

end Gelf

section Origin
variable {arrival : Arrival} {doc : Document}

/-- The same record from somewhere else. -/
def Arrival.sentFrom (arrival : Arrival) (srcIp : String) (lookup : Document.LookupResult) :
    Arrival :=
  { arrival with srcIp := srcIp, lookup := lookup }

theorem hostname_of_accepted (accepted : arrival.decode.Accepts doc) :
    doc.hostname = none ↔ ∃ msg, arrival.record = .syslog msg ∧ msg.hostname = none := by
  unfold Arrival.decode at accepted
  cases record : arrival.record with
  | gelf msg =>
    rw [record] at accepted
    simp [(fromGelf_fields accepted).1]
  | syslog msg =>
    rw [record] at accepted
    simp [(fromSyslog_fields accepted).1]

/-- The origin of a document is seen exactly when its host was missing. -/
theorem doReverseDns_depends_iff (doc : Document) (srcIp : String)
    (lookup : Document.LookupResult) :
    (∃ srcIp' lookup', doc.doReverseDns srcIp' lookup' ≠ doc.doReverseDns srcIp lookup) ↔
      doc.hostname = none := by
  constructor
  · rintro ⟨srcIp', lookup', differ⟩
    by_contra named
    have kept (srcIp : String) (lookup : Document.LookupResult) :
        doc.doReverseDns srcIp lookup = doc := by
      rw [Document.doReverseDns, if_neg (by simpa using named)]
    exact differ ((kept _ _).trans (kept _ _).symm)
  · intro unnamed
    refine ⟨(lookup.getD (some srcIp)).getD srcIp ++ ".", none, fun same => ?_⟩
    have hosts := congrArg Document.hostname same
    rw [Document.hostname_doReverseDns, Document.hostname_doReverseDns, unnamed] at hosts
    have lengths := congrArg String.length (Option.some.inj hosts)
    simp at lengths

/-- What is stored of a record depends on the sender's address or on the reverse lookup
exactly when it is an accepted syslog message that names no host. What is stored of a
GELF message has the host and the text that the message names. -/
theorem stored_depends_iff (arrival : Arrival) :
    ((∃ srcIp lookup, (arrival.sentFrom srcIp lookup).stored ≠ arrival.stored) ↔
      arrival.isAccepted = true ∧ ∃ msg, arrival.record = .syslog msg ∧ msg.hostname = none) ∧
    ∀ msg doc, arrival.record = .gelf msg → arrival.stored = some doc →
      doc.hostname = some msg.host ∧ doc.message = some msg.short_message := by
  have same (srcIp : String) (lookup : Document.LookupResult) :
      (arrival.sentFrom srcIp lookup).isAccepted = arrival.isAccepted := rfl
  cases accepted : arrival.isAccepted with
  | false =>
    have none (srcIp : String) (lookup : Document.LookupResult) :
        (arrival.sentFrom srcIp lookup).stored = none :=
      stored_of_not_accepted ((same srcIp lookup).trans accepted)
    rw [stored_of_not_accepted accepted]
    simp [none]
  | true =>
    obtain ⟨doc, decoded, valid, stored⟩ := stored_of_accepted accepted
    have moved (srcIp : String) (lookup : Document.LookupResult) :
        (arrival.sentFrom srcIp lookup).stored = some (doc.doReverseDns srcIp lookup) := by
      rw [Arrival.stored,
        show (arrival.sentFrom srcIp lookup).decode.run = .ok (.ok doc) from decoded]
      exact if_pos valid
    constructor
    · simp only [moved, stored, ne_eq, Option.some.injEq, true_and]
      rw [← hostname_of_accepted decoded]
      exact doReverseDns_depends_iff doc arrival.srcIp arrival.lookup
    · intro msg result record found
      cases stored.symm.trans found
      rw [Arrival.decode, record] at decoded
      obtain ⟨host, text⟩ := fromGelf_fields decoded
      rw [doc.hostname_doReverseDns, doc.message_doReverseDns, host, text]
      exact ⟨rfl, rfl⟩

end Origin

/-- A message without a host, and the same from an address with a name. -/
theorem stored_depends_iff_sample : ∃ srcIp lookup,
    ((sampleArrival "started").sentFrom srcIp lookup).stored ≠ (sampleArrival "started").stored :=
  (stored_depends_iff (sampleArrival "started")).1.mpr ⟨by decide +kernel, _, rfl, rfl⟩

end Yaffle.Ingest

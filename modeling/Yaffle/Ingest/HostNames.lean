import Yaffle.Core.Text
import Yaffle.Schema.Fallback
import Yaffle.Syslog.Bare

/-! The host that a syslog message names, from its text to the stored document. -/
namespace Yaffle.Ingest
open Nom Chrono Syslog Schema Fallible

section Stored
variable {env : Environment} {msg : SyslogMessage}

/-- A field that is taken over from one field of the message. -/
theorem syslogField_accepts {field : Field} {source : SyslogField field.storageType.fieldType}
    (one : field.fromSyslog = [.none source]) (v : field.Value) :
    (syslogField env msg field).Accepts v ↔ syslogAccessor msg source = v := by
  simp only [syslogField, one, constructorExpr, syslogExpr, accepts_bind, accepts_pure_iff,
    exists_eq_left', Option.or_none]

theorem syslogExpr_accepts_some
    (convertible : msg.source_timestamp.Convertible env.overflowChecks)
    (source : FromSyslog type) : ∃ v, (syslogExpr env msg source).Accepts v := by
  cases source with
  | none source => exact ⟨_, accepts_pure _⟩
  | dateTimeToUsec =>
    obtain ⟨usec, converted⟩ := (convertDatetimeToUsec_ok env _).mpr convertible
    refine ⟨some usec, ?_⟩
    rw [syslogExpr, converted]
    exact accepts_pure _

/-- Only the date can fail to be converted, and then by a panic. -/
theorem fromSyslog_accepts_some (env : Environment) (msg : SyslogMessage) :
    (∃ doc, (fromSyslog env msg).Accepts doc) ↔
      msg.source_timestamp.Convertible env.overflowChecks := by
  constructor
  · intro accepted
    exact (fromSyslog_survives env msg).mp (survives_iff.mpr (.inr accepted))
  · intro convertible
    rw [fromSyslog, Record.build_accepts_some]
    intro field member
    rw [syslogField, constructorExpr_accepts_some]
    exact fun source _ => syslogExpr_accepts_some convertible source

theorem fromSyslog_fields {doc : Document} (accepted : (fromSyslog env msg).Accepts doc) :
    doc.hostname = msg.hostname ∧ doc.syslogIdentifier = msg.identifier ∧
      doc.message = some msg.message := by
  have fields := Record.build_accepts.mp accepted
  refine ⟨?_, ?_, ?_⟩
  · exact ((syslogField_accepts rfl _).mp (fields _ Document.hostnamePosition)).symm
  · exact ((syslogField_accepts rfl _).mp (fields _ Document.syslogIdentifierPosition)).symm
  · exact ((syslogField_accepts rfl _).mp (fields _ Document.messagePosition)).symm

end Stored

/-- One label of a host name: letters, digits and inner hyphens. -/
def IsLabel (label : List Char) : Prop :=
  label ≠ [] ∧ (∀ c ∈ label, c.isAlphanum = true ∨ c = '-') ∧
    label.head? ≠ some '-' ∧ label.getLast? ≠ some '-'

instance (label : List Char) : Decidable (IsLabel label) :=
  have : Decidable (∀ c ∈ label, c.isAlphanum = true ∨ c = '-') := List.decidableBAll _ label
  inferInstanceAs (Decidable (_ ∧ _ ∧ _ ∧ _))

/-- A host name in the sense of RFC 1123: labels with dots between them. -/
def IsHostName (host : String) : Prop := ∀ label ∈ host.toList.splitOn '.', IsLabel label

instance (host : String) : Decidable (IsHostName host) :=
  inferInstanceAs (Decidable (∀ label ∈ _, _))

/-- `<PRI>Mon dd hh:mm:ss HOST IDENT: MSG`. -/
def namedText {env : Environment} (pri : UInt8) (stamp : LocalStamp env)
    (host ident message : String) : String :=
  priText pri ++ stamp.text ++ (host ++ " " ++ (ident ++ ": " ++ message))

theorem IsHostName.chars {host : String} (valid : IsHostName host) :
    ∀ c ∈ host.toList, (c.isAlphanum = true ∨ c = '.') ∨ c = '-' := by
  intro c member
  have whole : ['.'].intercalate (host.toList.splitOn '.') = host.toList :=
    List.intercalate_splitOn '.'
  rw [← whole] at member
  rcases Text.mem_intercalate member with dot | ⟨label, inside, found⟩
  · exact .inl (.inr dot)
  · exact ((valid label inside).2.1 c found).imp_left .inl

theorem IsHostName.nonempty {host : String} (valid : IsHostName host) : host ≠ "" := by
  rintro rfl
  exact (valid [] (by simp)).1 rfl

/-- Without hyphens it is a name that the parser takes. -/
theorem IsHostName.exists_hostName {host : String} (valid : IsHostName host)
    (noHyphen : '-' ∉ host.toList) : ∃ name : HostName, name.text = host := by
  refine ⟨⟨host, valid.nonempty, ?_⟩, rfl⟩
  intro c member
  rcases valid.chars c member with hostChar | rfl
  · exact hostChar
  · exact absurd member noHyphen

/-- What stands in a host name is no separator. -/
theorem IsHostName.separators {host : String} (valid : IsHostName host) :
    ∀ c ∈ host.toList, c ∉ [':', '[', ' ', '\t'] := by
  intro c member separator
  rcases valid.chars c member with hostChar | rfl
  · have ranges := (hostChar_range c).mp hostChar
    simp only [List.mem_cons, List.not_mem_nil, or_false] at separator
    rcases separator with rfl | rfl | rfl | rfl <;> contradiction
  · contradiction

/-- With a hyphen in its name, the host is not recognised at all. -/
theorem not_hostLike_of_hyphen {host : String} (valid : IsHostName host)
    (hyphen : '-' ∈ host.toList) (more : String) : ¬ HostLike (host ++ " " ++ more) := by
  rintro ⟨name, rest, same⟩
  have noSpace : ' ' ∉ host.toList := fun space => valid.separators _ space (by simp)
  have nameSpace : ' ' ∉ name.text.toList := by
    intro space
    have := (hostChar_range ' ').mp (name.chars _ space)
    contradiction
  have lists := congrArg String.toList same
  simp only [String.toList_append, List.append_assoc] at lists
  rw [Text.first_word noSpace nameSpace lists] at hyphen
  have := (hostChar_range '-').mp (name.chars _ hyphen)
  contradiction

/-- A word with a space after it is no identifier. -/
theorem identifierAndPid_none_of_space (word : Identifier) (more : Bytes) :
    identifierAndPid (Utf8.encode word.text ++ 0x20 :: more) = none := by
  have name := takeWhile1_append (0x20 :: more) (isIdentifier_of_mem word)
    (Utf8.encode_ne_nil word.nonempty) (by rintro _ ⟨⟩; rfl)
  have noPid : pid (0x20 :: more) = none :=
    mapRes_none _ (mapRes_none _ (preceded_none _ (tag_none_of_head (t := []) (by rintro ⟨⟩))))
  exact terminated_none_right (pair_some name (opt_none noPid)) (tag_none_of_head (by rintro ⟨⟩))

theorem identifierAndPid_none_of_head (more : Bytes) :
    identifierAndPid (0x3a :: more) = none :=
  terminated_none _ (pair_none_left _ (takeWhile1_none (by rintro _ ⟨⟩; rfl)))

section Named
variable {env : Environment} (pri : UInt8) (stamp : LocalStamp env)

/-- What the host name parser leaves of a text. -/
def afterHostname (text : String) : Bytes :=
  ((hostname (Utf8.encode text)).map Prod.fst).getD (Utf8.encode text)

/-- After the timestamp the host name is tried, and then the identifier. -/
theorem parseSyslog_after_stamp (text : String) :
    ∃ m, parseSyslog env (Utf8.encode (priText pri ++ stamp.text ++ text)) = some ([], m) ∧
      m.source_timestamp = stamp.instant ∧
      m.hostname = ((hostname (Utf8.encode text)).map Prod.snd).map Utf8.fromUtf8Lossy ∧
      (identifierAndPid (afterHostname text) = none →
        m.identifier = none ∧ m.message = Utf8.fromUtf8Lossy (afterHostname text)) := by
  have read := pair_some (opt_some (prioAndFacility_text pri _))
    (pair_some (opt_some (timestamp_text stamp (Utf8.encode text))) (pair_some (opt_eq hostname _)
      (pair_some (opt_eq identifierAndPid (afterHostname text)) (q := rest) rfl)))
  rw [← List.append_assoc, ← Utf8.encode_append, ← Utf8.encode_append] at read
  refine ⟨_, map_some (messageOfParts env _) read, rfl, rfl, ?_⟩
  intro absent
  simp only [messageOfParts, absent, Option.map_none, Option.getD_none, true_and]
  rfl

/-- A hyphen in the host name makes all that follows the timestamp the message. -/
theorem parseSyslog_hyphen {host : String} (valid : IsHostName host)
    (hyphen : '-' ∈ host.toList) (more : String) :
    ∃ m, parseSyslog env (Utf8.encode (priText pri ++ stamp.text ++ (host ++ " " ++ more))) =
      some ([], m) ∧ m.source_timestamp = stamp.instant ∧ m.hostname = none ∧
      m.identifier = none ∧ m.message = host ++ " " ++ more := by
  have noHost := (hostname_none_iff _).mpr (not_hostLike_of_hyphen valid hyphen more)
  have left : afterHostname (host ++ " " ++ more) = Utf8.encode (host ++ " " ++ more) := by
    rw [afterHostname, noHost, Option.map_none, Option.getD_none]
  have noIdent : identifierAndPid (afterHostname (host ++ " " ++ more)) = none := by
    rw [left, Utf8.encode_append, Utf8.encode_append, List.append_assoc]
    exact identifierAndPid_none_of_space ⟨host, valid.nonempty, valid.separators⟩ _
  obtain ⟨m, parsed, instant, hostname, others⟩ :=
    parseSyslog_after_stamp pri stamp (host ++ " " ++ more)
  obtain ⟨identifier, message⟩ := others noIdent
  refine ⟨m, parsed, instant, ?_, identifier, ?_⟩
  · rw [hostname, noHost, Option.map_none, Option.map_none]
  · rw [message, left, Utf8.fromUtf8Lossy_encode]

theorem identifier_none_of_empty (name : HostName) (message : String) :
    ∃ m, parseSyslog env (Utf8.encode (namedText pri stamp name.text "" message)) =
      some ([], m) ∧ m.source_timestamp = stamp.instant ∧ m.identifier = none := by
  obtain ⟨m, parsed, instant, _, others⟩ :=
    parseSyslog_after_stamp pri stamp (name.text ++ " " ++ ("" ++ ": " ++ message))
  refine ⟨m, parsed, instant, (others ?_).1⟩
  rw [afterHostname, Utf8.encode_append, hostname_text, Option.map_some, Option.getD_some,
    Utf8.encode_append]
  exact identifierAndPid_none_of_head _

end Named

/-- The document that is stored has the host, the identifier and the text that the
message names. -/
def StoredAs (env : Environment) (datagram srcIp : String) (lookup : Document.LookupResult)
    (host ident message : String) : Prop :=
  ∃ m doc, parseSyslog env (Utf8.encode datagram) = some ([], m) ∧
    (fromSyslog env m).Accepts doc ∧
    (doc.doReverseDns srcIp lookup).hostname = some host ∧
    (doc.doReverseDns srcIp lookup).syslogIdentifier = some ident ∧
    (doc.doReverseDns srcIp lookup).message = some message

section Stored
variable {env : Environment} {pri : UInt8} {stamp : LocalStamp env} {host ident message : String}
  {srcIp : String} {lookup : Document.LookupResult} (valid : IsHostName host)
include valid

/-- What is stored was recognised by the parsers and converted. -/
theorem conditions_of_storedAs
    (stored : StoredAs env (namedText pri stamp host ident message) srcIp lookup
      host ident message) :
    '-' ∉ host.toList ∧ ident ≠ "" ∧ stamp.instant.Convertible env.overflowChecks := by
  obtain ⟨m, doc, parsed, accepted, _, identified, _⟩ := stored
  have identifier : m.identifier = some ident := by
    rw [← (fromSyslog_fields accepted).2.1, ← identified, doc.syslogIdentifier_doReverseDns]
  have convertible := (fromSyslog_accepts_some env m).mp ⟨doc, accepted⟩
  have noHyphen : '-' ∉ host.toList := by
    intro hyphen
    obtain ⟨_, again, _, _, missing, _⟩ := parseSyslog_hyphen pri stamp valid hyphen _
    cases parsed.symm.trans again
    rw [identifier] at missing
    contradiction
  obtain ⟨name, rfl⟩ := valid.exists_hostName noHyphen
  refine ⟨noHyphen, ?_, ?_⟩
  · rintro rfl
    obtain ⟨_, again, _, missing⟩ := identifier_none_of_empty pri stamp name message
    cases parsed.symm.trans again
    rw [identifier] at missing
    cases missing
  · obtain ⟨_, again, instant, _⟩ := parseSyslog_after_stamp pri stamp _
    cases parsed.symm.trans again
    rwa [instant] at convertible

/-- Without a hyphen the message is one that the parser reads in full. -/
theorem storedAs_of_conditions (separators : ∀ c ∈ ident.toList, c ∉ [':', '[', ' ', '\t'])
    (noHyphen : '-' ∉ host.toList) (nonempty : ident ≠ "")
    (convertible : stamp.instant.Convertible env.overflowChecks) :
    StoredAs env (namedText pri stamp host ident message) srcIp lookup host ident message := by
  obtain ⟨name, rfl⟩ := valid.exists_hostName noHyphen
  let line : Line env := ⟨some pri, stamp, some name, ⟨ident, nonempty, separators⟩, none, message⟩
  have text : namedText pri stamp name.text ident message = line.text := by
    simp [namedText, Line.text, Tail.text, line, String.append_assoc]
  obtain ⟨doc, accepted⟩ := (fromSyslog_accepts_some env line.parsed).mpr convertible
  obtain ⟨hostname, identifier, msg⟩ := fromSyslog_fields accepted
  refine ⟨line.parsed, doc, ?_, accepted, ?_, ?_, ?_⟩
  · rw [text, parseSyslog_parts, messageOfParts_line]
  · rw [doc.hostname_doReverseDns, hostname]
    rfl
  · exact (doc.syslogIdentifier_doReverseDns srcIp lookup).trans identifier
  · exact (doc.message_doReverseDns srcIp lookup).trans msg

end Stored

/-- Whoever sent the message and whatever the lookup answers, its host is stored
exactly when no label of its name has a hyphen, its identifier is not empty, and reading
the nanoseconds of its instant does not overflow. -/
theorem named_host_stored_iff {env : Environment} (pri : UInt8) (stamp : LocalStamp env)
    {host ident : String} (valid : IsHostName host)
    (separators : ∀ c ∈ ident.toList, c ∉ [':', '[', ' ', '\t']) (message srcIp : String)
    (lookup : Document.LookupResult) :
    StoredAs env (namedText pri stamp host ident message) srcIp lookup host ident message ↔
      '-' ∉ host.toList ∧ ident ≠ "" ∧ stamp.instant.Convertible env.overflowChecks := by
  constructor
  · exact conditions_of_storedAs valid
  · rintro ⟨noHyphen, nonempty, convertible⟩
    exact storedAs_of_conditions valid separators noHyphen nonempty convertible

theorem named_host_stored_iff_sample :
    StoredAs sampleEnvironment (namedText 13 sampleStamp "mail.example.org" "postfix" "ready")
        "192.0.2.7" (some none) "mail.example.org" "postfix" "ready" ↔
      '-' ∉ "mail.example.org".toList ∧ "postfix" ≠ "" ∧
        sampleStamp.instant.Convertible sampleEnvironment.overflowChecks :=
  named_host_stored_iff 13 sampleStamp (by decide) (by simp) "ready" "192.0.2.7" (some none)

/-- The document gets the address for its host, and no identifier. -/
theorem hyphenated_host_lost : IsHostName "web-1" ∧
    namedText 13 sampleStamp "web-1" "app" "started" =
      "<13>Oct 11 22:14:15 web-1 app: started" ∧
    (∃ m doc, parseSyslog sampleEnvironment
        (Utf8.encode "<13>Oct 11 22:14:15 web-1 app: started") = some ([], m) ∧
      (fromSyslog sampleEnvironment m).Accepts doc ∧
      (doc.doReverseDns "192.0.2.7" (some none)).hostname = some "192.0.2.7" ∧
      (doc.doReverseDns "192.0.2.7" (some none)).syslogIdentifier = none ∧
      (doc.doReverseDns "192.0.2.7" (some none)).message = some "web-1 app: started") ∧
    ¬ StoredAs sampleEnvironment "<13>Oct 11 22:14:15 web-1 app: started" "192.0.2.7" (some none)
      "web-1" "app" "started" := by
  have valid : IsHostName "web-1" := by decide
  obtain ⟨m, parsed, instant, hostname, identifier, message⟩ :=
    parseSyslog_hyphen 13 sampleStamp valid (by decide) ("app" ++ ": " ++ "started")
  have convertible : m.source_timestamp.Convertible sampleEnvironment.overflowChecks := by
    rw [instant]
    decide
  obtain ⟨doc, accepted⟩ := (fromSyslog_accepts_some sampleEnvironment m).mpr convertible
  obtain ⟨stored, storedIdentifier, storedMessage⟩ := fromSyslog_fields accepted
  have unidentified : (doc.doReverseDns "192.0.2.7" (some none)).syslogIdentifier = none :=
    (doc.syslogIdentifier_doReverseDns _ _).trans (storedIdentifier.trans identifier)
  have text : doc.message = some "web-1 app: started" := by
    rw [storedMessage, message]
    rfl
  have address : (doc.doReverseDns "192.0.2.7" (some none)).hostname = some "192.0.2.7" := by
    rw [doc.hostname_doReverseDns, stored, hostname]
    rfl
  refine ⟨valid, by decide, ⟨m, doc, parsed, accepted, address, unidentified, ?_⟩, ?_⟩
  · exact (doc.message_doReverseDns _ _).trans text
  · rintro ⟨_, other, again, accepted', named, _⟩
    cases parsed.symm.trans again
    rw [other.hostname_doReverseDns, (fromSyslog_fields accepted').1, hostname] at named
    exact absurd (Option.some.inj named) (by decide)

end Yaffle.Ingest

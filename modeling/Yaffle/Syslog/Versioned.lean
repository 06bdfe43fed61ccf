import Yaffle.Syslog.RoundTrip

/-! Lines with an RFC 5424 version and timestamp. Their timestamp leaves the
space after it in the input, and so the parts that follow are not recognised. -/
namespace Yaffle.Syslog
open Nom Chrono

/-- `<PRI>V T TAIL`. -/
def versionedText (pri : UInt8) (version stamp : String) (tail : Tail) : String :=
  priText pri ++ (version ++ " " ++ stamp ++ " " ++ tail.text)

theorem hostname_space (more : Bytes) : hostname (0x20 :: more) = none :=
  terminated_none _ (takeWhile1_none (by rintro _ ⟨⟩; rfl))

theorem identifierAndPid_space (more : Bytes) : identifierAndPid (0x20 :: more) = none :=
  terminated_none _ (pair_none_left _ (takeWhile1_none (by rintro _ ⟨⟩; rfl)))

theorem rfc3339Timestamp_text {env : Environment} {stamp : String} {ts : DateTime}
    (noSpace : ' ' ∉ stamp.toList) (valid : env.parseFromRfc3339 stamp = some ts) (more : Bytes) :
    rfc3339Timestamp env (Utf8.encode stamp ++ 0x20 :: more) = some (0x20 :: more, ts) := by
  have absent : 0x20 ∉ Utf8.encode stamp := by
    intro space
    exact noSpace (Utf8.mem_encode_ascii space (by decide))
  exact mapRes_some (mapRes_some (takeUntil_append 0x20 more absent) (Utf8.fromUtf8_encode stamp))
    valid

/-- The version and the timestamp are read, the separator after them is not. -/
theorem timestamp_versioned {env : Environment} {version stamp : String} {ts : DateTime}
    (digits : ∀ c ∈ version.toList, c.isDigit = true) (nonempty : version ≠ "")
    (noSpace : ' ' ∉ stamp.toList) (valid : env.parseFromRfc3339 stamp = some ts) (more : Bytes) :
    timestamp env (Utf8.encode version ++
        (Utf8.encode " " ++ (Utf8.encode stamp ++ 0x20 :: more))) =
      some (0x20 :: more, ts) := by
  have number := takeWhile1_append (Utf8.encode " " ++ (Utf8.encode stamp ++ 0x20 :: more))
    (Decimal.encode_digits digits).2 (Utf8.encode_ne_nil nonempty) (by rintro _ ⟨⟩; rfl)
  exact alt_head _ (preceded_some (terminated_some number (tag_append _ _))
    (rfc3339Timestamp_text noSpace valid more))

theorem timestamp_space {env : Environment} (more : Bytes) :
    timestamp env (0x20 :: more) = none := by
  have noVersion : digit1 (0x20 :: more) = none := takeWhile1_none (by rintro _ ⟨⟩; rfl)
  have noMonth : month (0x20 :: more) = none := rfl
  have noStamp : rfc3164Timestamp env (0x20 :: more) = none :=
    mapRes_none _ (mapRes_none _ (pair_none_left _ noMonth))
  rw [timestamp, alt_tail _ (preceded_none _ (terminated_none _ noVersion)), alt_tail _ noStamp]
  rfl

/-- Whatever the version, what follows the timestamp begins with a space. -/
theorem opt_timestamp_versioned {env : Environment} {version stamp : String} {ts : DateTime}
    (digits : ∀ c ∈ version.toList, c.isDigit = true) (noSpace : ' ' ∉ stamp.toList)
    (valid : env.parseFromRfc3339 stamp = some ts) (more : Bytes) : ∃ remaining found,
      opt (timestamp env) (Utf8.encode version ++ (Utf8.encode " " ++
        (Utf8.encode stamp ++ 0x20 :: more))) = some (0x20 :: remaining, found) := by
  by_cases nonempty : version = ""
  · subst nonempty
    exact ⟨_, none, opt_none (timestamp_space _)⟩
  · exact ⟨more, some ts, opt_some (timestamp_versioned digits nonempty noSpace valid more)⟩

theorem parseSyslog_versioned (env : Environment) (pri : UInt8) (version stamp : String)
    {ts : DateTime} (digits : ∀ c ∈ version.toList, c.isDigit = true)
    (noSpace : ' ' ∉ stamp.toList) (valid : env.parseFromRfc3339 stamp = some ts) (tail : Tail) :
    ∃ m, parseSyslog env (Utf8.encode (versionedText pri version stamp tail)) = some ([], m) ∧
      m.hostname = none ∧ m.identifier = none ∧ m.pid = none := by
  obtain ⟨remaining, found, read⟩ :=
    opt_timestamp_versioned digits noSpace valid (Utf8.encode tail.text)
  have split : Utf8.encode (versionedText pri version stamp tail) =
      Utf8.encode (priText pri) ++ (Utf8.encode version ++ (Utf8.encode " " ++
        (Utf8.encode stamp ++ 0x20 :: Utf8.encode tail.text))) := by
    simp only [versionedText, Utf8.encode_append, List.append_assoc]
    rfl
  have bare : pair (opt identifierAndPid) rest (0x20 :: remaining) = some ([], none, _) :=
    pair_some (opt_none (identifierAndPid_space remaining)) rfl
  have read := pair_some (opt_some (prioAndFacility_text pri _)) (pair_some read
    (pair_some (opt_none (hostname_space remaining)) bare))
  rw [← split] at read
  exact ⟨_, map_some (messageOfParts env _) read, rfl, rfl, rfl⟩

theorem parseSyslog_unversioned (env : Environment) (line : Line env) :
    ∃ m, parseSyslog env (Utf8.encode line.text) = some ([], m) ∧
      m.identifier = some line.tail.identifier.text :=
  ⟨_, parseSyslog_parts env line, by simp [messageOfParts, Line.parts]⟩

/-- What the two forms of the timestamp are meant to have in common. -/
def SameAfterTimestamp (m m' : SyslogMessage) : Prop :=
  m.hostname = m'.hostname ∧ m.identifier = m'.identifier ∧ m.pid = m'.pid ∧ m.message = m'.message

/-- No line is read alike in the two forms. -/
theorem versioned_never_alike (env : Environment) (pri : UInt8) (version stamp : String)
    (digits : ∀ c ∈ version.toList, c.isDigit = true) (noSpace : ' ' ∉ stamp.toList)
    (ts : DateTime) (valid : env.parseFromRfc3339 stamp = some ts) (stamp' : LocalStamp env)
    (tail : Tail) :
    ¬ ∃ remaining m remaining' m',
      parseSyslog env (Utf8.encode (versionedText pri version stamp tail)) = some (remaining, m) ∧
      parseSyslog env (Utf8.encode (Line.text ⟨some pri, stamp', tail⟩)) = some (remaining', m') ∧
      SameAfterTimestamp m m' := by
  rintro ⟨remaining, m, remaining', m', versioned, unversioned, _, same, _⟩
  obtain ⟨_, parsed, _, unnamed, _⟩ :=
    parseSyslog_versioned env pri version stamp digits noSpace valid tail
  cases versioned.symm.trans parsed
  obtain ⟨_, parsed, named⟩ := parseSyslog_unversioned env ⟨some pri, stamp', tail⟩
  cases unversioned.symm.trans parsed
  rw [unnamed, named] at same
  contradiction

/-- A clock in October 2023, a zone at UTC, and one timestamp that parses. -/
def sampleEnvironment : Environment where
  overflowChecks := true
  now := .ofSeconds 1697062455
  year := 2023
  fromLocalDatetime := fixedOffset 0
  parseFromRfc3339 s :=
    if s = "2023-10-11T22:14:15Z" then some (.ofSeconds 1697062455) else none
  parseFromRfc2822 _ := none
  parseFromStr _ := none

def sampleStamp : LocalStamp sampleEnvironment where
  month := 10
  day := 11
  hour := 22
  minute := 14
  second := 15
  date := ⟨2023, 10, 11, by decide⟩
  dated := rfl
  clock := by decide
  instant := .ofSeconds 1697062455
  resolved := .inl rfl

def sampleTail : Tail where
  hostname := some ⟨"mymachine", by simp, by simp⟩
  identifier := ⟨"evntslog", by simp, by simp⟩
  pid := some 8710
  message := "An event"

theorem versioned_never_alike_sample :
    ¬ ∃ remaining m remaining' m',
      parseSyslog sampleEnvironment (Utf8.encode
        (versionedText 165 "1" "2023-10-11T22:14:15Z" sampleTail)) = some (remaining, m) ∧
      parseSyslog sampleEnvironment (Utf8.encode
        (Line.text ⟨some 165, sampleStamp, sampleTail⟩)) = some (remaining', m') ∧
      SameAfterTimestamp m m' :=
  versioned_never_alike sampleEnvironment 165 "1" "2023-10-11T22:14:15Z" (by simp) (by simp)
    (.ofSeconds 1697062455) rfl sampleStamp sampleTail

theorem versioned_sample_differs : ∃ m m',
    parseSyslog sampleEnvironment (Utf8.encode
      "<165>1 2023-10-11T22:14:15Z mymachine evntslog[8710]: An event") = some ([], m) ∧
    parseSyslog sampleEnvironment (Utf8.encode
      "<165>Oct 11 22:14:15 mymachine evntslog[8710]: An event") = some ([], m') ∧
    ¬ SameAfterTimestamp m m' := by
  obtain ⟨m, versioned, _, unnamed, _⟩ := parseSyslog_versioned sampleEnvironment 165 "1"
    "2023-10-11T22:14:15Z" (by simp) (by simp) rfl sampleTail
  obtain ⟨m', unversioned, named⟩ :=
    parseSyslog_unversioned sampleEnvironment ⟨some 165, sampleStamp, sampleTail⟩
  refine ⟨m, m', versioned, unversioned, ?_⟩
  rintro ⟨_, same, _⟩
  rw [unnamed, named] at same
  contradiction

end Yaffle.Syslog

import Yaffle.Syslog.Split
import Yaffle.Syslog.Versioned

/-! Texts that no timestamp precedes. The host name is looked for in them as
well, and a first word of letters, digits and dots is one. -/
namespace Yaffle.Syslog
open Nom Chrono

/-- The text begins with a word that could be a host name, and a space. -/
def HostLike (text : String) : Prop :=
  ∃ (host : HostName) (rest : String), text = host.text ++ " " ++ rest

/-- Nothing was taken from the text but one leading space. -/
def StaysWhole (text : String) (m : SyslogMessage) : Prop :=
  m.hostname = none ∧ m.identifier = none ∧ m.pid = none ∧
    (m.message = text ∨ text = " " ++ m.message)

theorem hostByte_ascii {b : UInt8} (inside : (isAlphanumeric b || b = 0x2e) = true) :
    b.toNat < 128 := by
  have := (hostByte_range b).mp inside
  omega

/-- The bytes of a host name are a host name's text. -/
theorem exists_hostName {front : String} (nonempty : Utf8.encode front ≠ [])
    (inside : ∀ b ∈ Utf8.encode front, (isAlphanumeric b || b = 0x2e) = true) :
    ∃ host : HostName, host.text = front := by
  have ascii : ∀ b ∈ Utf8.encode front, b.toNat < 128 :=
    fun b member => hostByte_ascii (inside b member)
  refine ⟨⟨front, ?_, ?_⟩, rfl⟩
  · rintro rfl
    exact nonempty rfl
  · intro c member
    obtain ⟨b, byte, code⟩ := Utf8.exists_byte_of_mem ascii member
    rw [hostChar_range, code]
    exact (hostByte_range b).mp (inside b byte)

/-- The host name parser takes the first word exactly of the texts that have one. -/
theorem hostname_hostLike {text : String} {remaining name : Bytes}
    (ran : hostname (Utf8.encode text) = some (remaining, name)) : HostLike text := by
  obtain ⟨⟨left, word, blank⟩, inner, same⟩ := Option.map_eq_some_iff.mp ran
  cases same
  obtain ⟨taken, space, whole, ranWord, ranSpace⟩ :=
    (consumes_takeWhile1 _).pair_split (consumes_tag _) inner
  obtain rfl := tag_took ranSpace
  obtain ⟨nonempty, inside⟩ := takeWhile1_inside ranWord
  obtain rfl := takeWhile1_took ranWord
  rw [List.append_assoc] at whole
  have ascii : ∀ b ∈ taken, b.toNat < 128 :=
    fun b member => hostByte_ascii (inside b member)
  obtain ⟨front, back, rfl, rfl, after⟩ := Utf8.encode_split_ascii ascii whole
  have blank : ∀ b ∈ Utf8.encode " ", b.toNat < 128 := by
    intro b member
    cases List.mem_singleton.mp member
    decide
  obtain ⟨space, rest, rfl, encoded, _⟩ := Utf8.encode_split_ascii blank after
  obtain ⟨host, rfl⟩ := exists_hostName nonempty inside
  have same : space = " " := by
    apply Option.some.inj
    rw [← Utf8.fromUtf8_encode space, encoded, Utf8.fromUtf8_encode]
  subst same
  exact ⟨host, rest, String.append_assoc.symm⟩

theorem hostname_none_iff (text : String) :
    hostname (Utf8.encode text) = none ↔ ¬ HostLike text := by
  constructor
  · rintro absent ⟨host, rest, rfl⟩
    rw [Utf8.encode_append, hostname_text] at absent
    contradiction
  · intro other
    cases ran : hostname (Utf8.encode text) with
    | none => rfl
    | some found => exact absurd (hostname_hostLike ran) other

theorem identifierAndPid_none_of_colon {input : Bytes} (noColon : 0x3a ∉ input) :
    identifierAndPid input = none := by
  cases ran : identifierAndPid input with
  | none => rfl
  | some found =>
    obtain ⟨remaining, name, number⟩ := found
    obtain ⟨consumed, rfl⟩ := consumes_identifierAndPid ran
    obtain ⟨pidBytes, rfl, _⟩ := identifierAndPid_took ran
    have colon : (0x3a : UInt8) ∈ Utf8.encode ": " := by decide
    exact absurd (by simp [colon]) noColon

/-- After the PRI the whole text is tried as a timestamp and then as a host name. -/
theorem parseSyslog_bare {env : Environment} (pri : UInt8) {text : String}
    (noStamp : timestamp env (Utf8.encode text) = none) :
    ∃ m, parseSyslog env (Utf8.encode (priText pri ++ text)) = some ([], m) ∧
      m.hostname = ((hostname (Utf8.encode text)).map Prod.snd).map Utf8.fromUtf8Lossy ∧
      (hostname (Utf8.encode text) = none → ':' ∉ text.toList →
        m.identifier = none ∧ m.pid = none ∧
          m.message = messageText true (Utf8.encode text)) := by
  have number := opt_some (prioAndFacility_text pri (Utf8.encode text))
  have read := pair_some number (pair_some (opt_none noStamp) (pair_some (opt_eq hostname _)
    (pair_some (opt_eq identifierAndPid _) (q := rest) rfl)))
  rw [← Utf8.encode_append] at read
  refine ⟨_, map_some (messageOfParts env _) read, rfl, ?_⟩
  intro absent noColon
  have noIdent : identifierAndPid (Utf8.encode text) = none := by
    apply identifierAndPid_none_of_colon
    intro colon
    exact noColon (Utf8.mem_encode_ascii colon (by decide))
  simp [messageOfParts, absent, noIdent]

theorem messageText_whole (text : String) :
    messageText true (Utf8.encode text) = text ∨
      text = " " ++ messageText true (Utf8.encode text) := by
  unfold messageText
  rw [Utf8.fromUtf8Lossy_encode]
  dsimp only
  split
  · split
    case h_1 stripped chars =>
      right
      apply String.toList_injective
      simp [chars]
    case h_2 => exact .inl rfl
  · contradiction

/-- A text without a colon stays whole exactly when it does not begin with a
word that the host name parser takes. -/
theorem bare_message_iff (env : Environment) (pri : UInt8) (text : String)
    (noColon : ':' ∉ text.toList) (noStamp : timestamp env (Utf8.encode text) = none) :
    ∃ m, parseSyslog env (Utf8.encode (priText pri ++ text)) = some ([], m) ∧
      (StaysWhole text m ↔ ¬ HostLike text) := by
  obtain ⟨m, parsed, host, others⟩ := parseSyslog_bare pri noStamp
  refine ⟨m, parsed, ?_⟩
  rw [← hostname_none_iff]
  constructor
  · rintro ⟨noHost, _⟩
    rw [host] at noHost
    simpa using noHost
  · intro absent
    obtain ⟨noIdent, noPid, message⟩ := others absent noColon
    refine ⟨by simp [host, absent], noIdent, noPid, ?_⟩
    rw [message]
    exact messageText_whole text

theorem bare_message_iff_callback :
    ∃ m, parseSyslog sampleEnvironment (Utf8.encode (priText 7 ++ " register callback")) =
        some ([], m) ∧
      (StaysWhole " register callback" m ↔ ¬ HostLike " register callback") :=
  bare_message_iff sampleEnvironment 7 " register callback" (by decide) (timestamp_space _)

/-- Without the leading space the first word is the host name. -/
theorem bare_message_loses_word : ∃ m,
    ':' ∉ "register callback".toList ∧
    timestamp sampleEnvironment (Utf8.encode "register callback") = none ∧
    parseSyslog sampleEnvironment (Utf8.encode (priText 7 ++ "register callback")) =
      some ([], m) ∧
    m.hostname = some "register" ∧ ¬ StaysWhole "register callback" m := by
  have noStamp : timestamp sampleEnvironment (Utf8.encode "register callback") = none := by
    decide
  obtain ⟨m, parsed, host, _⟩ := parseSyslog_bare 7 noStamp
  have word : hostname (Utf8.encode "register callback") =
      some (Utf8.encode "callback", Utf8.encode "register") := by
    decide
  rw [word, Option.map_some, Option.map_some, Utf8.fromUtf8Lossy_encode] at host
  refine ⟨m, by decide, noStamp, parsed, host, ?_⟩
  rintro ⟨noHost, _⟩
  rw [host] at noHost
  contradiction

end Yaffle.Syslog

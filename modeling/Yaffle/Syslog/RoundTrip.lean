import Yaffle.Syslog.Parse
import Mathlib.Tactic.IntervalCases

/-! BSD syslog lines and what the parser makes of them. Each part is read back
where it stands, and an absent part is not taken from the text that follows. -/
namespace Yaffle.Syslog
open Nom Chrono

structure HostName where
  text : String
  nonempty : text ≠ ""
  chars : ∀ c ∈ text.toList, c.isAlphanum = true ∨ c = '.'

structure Identifier where
  text : String
  nonempty : text ≠ ""
  chars : ∀ c ∈ text.toList, c ∉ [':', '[', ' ', '\t']

/-- A time that exists in the current local year and zone; an ambiguous one
stands for its first reading. -/
structure LocalStamp (env : Environment) where
  month : Nat
  day : Nat
  hour : Nat
  minute : Nat
  second : Nat
  date : NaiveDate
  dated : NaiveDate.fromYmdOpt env.year month day = some date
  clock : hour < 24 ∧ minute < 60 ∧ second ≤ 60
  instant : DateTime
  resolved : env.fromLocalDatetime ⟨date, hms hour minute second clock⟩ = .single instant ∨
    ∃ later, env.fromLocalDatetime ⟨date, hms hour minute second clock⟩ = .ambiguous instant later

def monthNames : List String :=
  ["Jan", "Feb", "Mar", "Apr", "May", "Jun", "Jul", "Aug", "Sep", "Oct", "Nov", "Dec"]

def monthText (month : Nat) : String := (monthNames[month - 1]?).getD "" ++ " "

/-- The day of the month, padded with a space. -/
def dayText (day : Nat) : String := if day < 10 then " " ++ Nat.repr day else Nat.repr day

def timeText (hour minute second : Nat) : String :=
  Decimal.pad2 hour ++ ":" ++ Decimal.pad2 minute ++ ":" ++ Decimal.pad2 second

def LocalStamp.text {env : Environment} (stamp : LocalStamp env) : String :=
  monthText stamp.month ++ (dayText stamp.day ++ " ") ++
    (timeText stamp.hour stamp.minute stamp.second ++ " ")

def priText (pri : UInt8) : String := "<" ++ Nat.repr pri.toNat ++ ">"

def pidText (pid : UInt64) : String := "[" ++ Nat.repr pid.toNat ++ "]"

/-- What follows the timestamp: `[HOST ]IDENT[[PID]]: MSG`. -/
structure Tail where
  hostname : Option HostName
  identifier : Identifier
  pid : Option UInt64
  message : String

def Tail.text (tail : Tail) : String :=
  (tail.hostname.map (fun host => host.text ++ " ")).getD "" ++ tail.identifier.text ++
    (tail.pid.map pidText).getD "" ++ ": " ++ tail.message

/-- A line `<PRI>Mon dd hh:mm:ss [HOST ]IDENT[[PID]]: MSG`. -/
structure Line (env : Environment) where
  pri : Option UInt8
  stamp : LocalStamp env
  tail : Tail

def Line.text {env : Environment} (line : Line env) : String :=
  (line.pri.map priText).getD "" ++ line.stamp.text ++ line.tail.text

theorem prioAndFacility_text (pri : UInt8) (more : Bytes) :
    prioAndFacility (Utf8.encode (priText pri) ++ more) =
      some (more, pri &&& 0x7, facilityName (pri >>> 3)) := by
  have opening : Utf8.encode "<" = [0x3c] := rfl
  have closing : Utf8.encode ">" = [0x3e] := rfl
  have split : Utf8.encode (priText pri) ++ more =
      0x3c :: (Utf8.encode (Nat.repr pri.toNat) ++ 0x3e :: more) := by
    simp only [priText, Utf8.encode_append, opening, closing, List.append_assoc,
      List.cons_append, List.nil_append]
  have number := Decimal.digit1_repr pri.toNat (0x3e :: more) (by rintro _ ⟨⟩; rfl)
  have read : delimited (char 0x3c) digit1 (char 0x3e) (Utf8.encode (priText pri) ++ more) =
      some (more, Utf8.encode (Nat.repr pri.toNat)) := by
    rw [split]
    exact preceded_some (char_cons _ _) (terminated_some number (char_cons _ _))
  exact map_some _ (mapRes_some (mapRes_some read (Utf8.fromUtf8_encode _))
    (Decimal.parseU8_repr pri))

theorem prioAndFacility_none {input : Bytes} (other : input.head? ≠ some 0x3c) :
    prioAndFacility input = none :=
  map_none _ (mapRes_none _ (mapRes_none _ (preceded_none _ (char_none other))))

theorem month_text {n : Nat} (first : 1 ≤ n) (last : n ≤ 12) (more : Bytes) :
    month (Utf8.encode (monthText n) ++ more) = some (more, n) := by
  interval_cases n <;> rfl

theorem repr_length {n : Nat} (ten : n < 10) : (Nat.repr n).toList.length = 1 := by
  rw [Nat.toList_repr, Nat.toDigits_of_lt_base ten]
  rfl

theorem repr_length_two {n : Nat} (ten : 10 ≤ n) (hundred : n < 100) :
    (Nat.repr n).toList.length = 2 := by
  rw [Nat.toList_repr, Nat.toDigits_of_base_le (by decide) ten,
    Nat.toDigits_of_lt_base (by omega)]
  rfl

/-- Two digits are a day that no padding precedes. -/
theorem day_two_digits {body : String} {n : UInt8} (inside : ∀ c ∈ body.toList, c.isDigit = true)
    (two : body.toList.length = 2) (number : Decimal.parseU8 body = some n) (more : Bytes) :
    day (Utf8.encode (body ++ " ") ++ more) = some (more, n) := by
  obtain ⟨size, digits⟩ := Decimal.encode_digits inside
  refine mapRes_some (mapRes_some (a := Utf8.encode body) ?_ (Utf8.fromUtf8_encode _)) number
  rw [Utf8.encode_append, List.append_assoc]
  refine terminated_some ?_ (tag_append _ more)
  have taken := takeWhileMN_append (Utf8.encode " " ++ more) digits
  rw [size, two] at taken
  have nonempty : Utf8.encode body ≠ [] := by
    intro empty
    rw [empty, two] at size
    contradiction
  have noPad : tag (Utf8.encode " ") (Utf8.encode body ++ (Utf8.encode " " ++ more)) = none :=
    tag_none_of_head (t := []) (head_ne _ digits nonempty rfl)
  rw [alt_tail _ (preceded_none _ noPad)]
  exact alt_head _ taken

theorem day_text {n : Nat} (small : n < 100) (more : Bytes) :
    day (Utf8.encode (dayText n ++ " ") ++ more) = some (more, UInt8.ofNat n) := by
  have inside := Decimal.isDigit_of_mem_repr (n := n)
  have number : Decimal.parseU8 (Nat.repr n) = some (UInt8.ofNat n) := by
    rw [Decimal.parseU8, Decimal.parseUnsigned_repr (by omega)]
    rfl
  by_cases ten : n < 10
  · obtain ⟨size, digits⟩ := Decimal.encode_digits inside
    have one := takeWhileMN_append (Utf8.encode " " ++ more) digits
    rw [size, repr_length ten] at one
    refine mapRes_some (mapRes_some (a := Utf8.encode (Nat.repr n)) ?_ (Utf8.fromUtf8_encode _))
      number
    rw [dayText, if_pos ten, Utf8.encode_append, Utf8.encode_append, List.append_assoc,
      List.append_assoc]
    exact terminated_some (alt_head _ (preceded_some (tag_append _ _) one)) (tag_append _ more)
  · rw [dayText, if_neg ten]
    exact day_two_digits inside (repr_length_two (Nat.not_lt.mp ten) small) number more

theorem time_text {hour minute second : Nat} (clock : hour < 24 ∧ minute < 60 ∧ second ≤ 60)
    (more : Bytes) :
    time (Utf8.encode (timeText hour minute second ++ " ") ++ more) =
      some (more, hms hour minute second clock) := by
  refine mapRes_some (mapRes_some (a := Utf8.encode (timeText hour minute second)) ?_
    (Utf8.fromUtf8_encode _)) (parseTime_pad2 clock)
  rw [Utf8.encode_append, List.append_assoc]
  refine terminated_some ?_ (tag_append _ more)
  have field (n : Nat) (more : Bytes) :
      takeWhileMN 2 2 isDigit (Utf8.encode (Decimal.pad2 n) ++ more) =
      some (more, Utf8.encode (Decimal.pad2 n)) := by
    obtain ⟨size, digits⟩ := Decimal.encode_digits (Decimal.isDigit_of_mem_pad2 (n := n))
    have two := takeWhileMN_append more digits
    rwa [size, Decimal.pad2, String.toList_ofList] at two
  have split : Utf8.encode (timeText hour minute second) ++ (Utf8.encode " " ++ more) =
      Utf8.encode (Decimal.pad2 hour) ++ (Utf8.encode ":" ++ (Utf8.encode (Decimal.pad2 minute) ++
        (Utf8.encode ":" ++ (Utf8.encode (Decimal.pad2 second) ++ (Utf8.encode " " ++ more))))) := by
    simp only [timeText, Utf8.encode_append, List.append_assoc]
  have fields := separatedPair_some
    (separatedPair_some (field hour _) (tag_append (Utf8.encode ":") _) (field minute _))
    (tag_append (Utf8.encode ":") _) (field second (Utf8.encode " " ++ more))
  rw [← split] at fields
  exact recognize_append fields

/-- The three fields of a timestamp, whichever way the day is written. -/
theorem fields_text {month dayNumber hour minute second : Nat} {padded : String}
    (first : 1 ≤ month) (last : month ≤ 12) (dayRead : ∀ more,
      day (Utf8.encode (padded ++ " ") ++ more) = some (more, UInt8.ofNat dayNumber))
    (clock : hour < 24 ∧ minute < 60 ∧ second ≤ 60) (more : Bytes) :
    pair Syslog.month (pair day time) (Utf8.encode (monthText month ++ (padded ++ " ") ++
        (timeText hour minute second ++ " ")) ++ more) =
      some (more, month, UInt8.ofNat dayNumber, hms hour minute second clock) := by
  have fields := pair_some (month_text first last _)
    (pair_some (dayRead _) (time_text clock more))
  rw [Utf8.encode_append, Utf8.encode_append, List.append_assoc, List.append_assoc]
  exact fields

theorem day_toNat {n : Nat} (small : n < 100) : (UInt8.ofNat n).toNat = n := by
  rw [UInt8.toNat_ofNat']
  omega

theorem rfc3164Timestamp_text {env : Environment} (stamp : LocalStamp env) (more : Bytes) :
    rfc3164Timestamp env (Utf8.encode stamp.text ++ more) = some (more, stamp.instant) := by
  obtain ⟨first, last, days⟩ := fromYmdOpt_bounds stamp.dated
  have small : stamp.day < 100 := by omega
  have fields := fields_text first last (day_text small) stamp.clock more
  refine mapRes_some (mapRes_some fields
    (b := ⟨stamp.date, hms stamp.hour stamp.minute stamp.second stamp.clock⟩) ?_) ?_
  · simp only [naiveTimestamp, day_toNat small, stamp.dated, Option.map_some]
  · rcases stamp.resolved with single | ⟨later, ambiguous⟩
    · simp only [localTimestamp, single]
    · simp only [localTimestamp, ambiguous]

theorem not_isDigit_of_isAlphabetic {b : UInt8} (letter : isAlphabetic b = true) :
    isDigit b = false := by
  simp only [isAlphabetic, isDigit, Bool.or_eq_true, Bool.and_eq_true, Bool.and_eq_false_iff,
    decide_eq_true_eq, decide_eq_false_iff_not, UInt8.le_iff_toNat_le, UInt8.reduceToNat] at *
  omega

/-- A local timestamp begins with a capital letter. -/
theorem stamp_head {env : Environment} (stamp : LocalStamp env) (more : Bytes) :
    ∃ b, (Utf8.encode stamp.text ++ more).head? = some b ∧ isAlphabetic b = true := by
  obtain ⟨first, last, _⟩ := fromYmdOpt_bounds stamp.dated
  have letter : ∀ m, 1 ≤ m → m ≤ 12 → ∃ b rest, Utf8.encode (monthText m) = b :: rest ∧
      isAlphabetic b = true := by
    intro m first last
    interval_cases m <;> exact ⟨_, _, rfl, rfl⟩
  obtain ⟨b, rest, same, alphabetic⟩ := letter stamp.month first last
  refine ⟨b, ?_, alphabetic⟩
  simp [LocalStamp.text, Utf8.encode_append, same]

theorem timestamp_text {env : Environment} (stamp : LocalStamp env) (more : Bytes) :
    timestamp env (Utf8.encode stamp.text ++ more) = some (more, stamp.instant) := by
  obtain ⟨b, head, letter⟩ := stamp_head stamp more
  have noDigit : digit1 (Utf8.encode stamp.text ++ more) = none := by
    apply takeWhile1_none
    intro other same
    cases head.symm.trans same
    exact not_isDigit_of_isAlphabetic letter
  rw [timestamp, alt_tail _ (preceded_none _ (terminated_none _ noDigit))]
  exact alt_head _ (rfc3164Timestamp_text stamp more)

theorem hostChar_range (c : Char) : c.isAlphanum = true ∨ c = '.' ↔
    ((65 ≤ c.toNat ∧ c.toNat ≤ 90 ∨ 97 ≤ c.toNat ∧ c.toNat ≤ 122) ∨
      48 ≤ c.toNat ∧ c.toNat ≤ 57) ∨ c.toNat = 46 := by
  have classes : c.isAlphanum = ((decide (c.val ≥ 'A'.val ∧ c.val ≤ 'Z'.val) ||
      (decide (c.val ≥ 'a'.val) && decide (c.val ≤ 'z'.val))) || c.isDigit) := rfl
  simp only [classes, Bool.or_eq_true, Bool.and_eq_true, decide_eq_true_eq,
    UInt32.le_iff_toNat_le, ge_iff_le, Char.isDigit_iff_toNat, ← Char.toNat_inj]
  rfl

theorem hostByte_range (b : UInt8) : (isAlphanumeric b || b = 0x2e) = true ↔
    ((65 ≤ b.toNat ∧ b.toNat ≤ 90 ∨ 97 ≤ b.toNat ∧ b.toNat ≤ 122) ∨
      48 ≤ b.toNat ∧ b.toNat ≤ 57) ∨ b.toNat = 46 := by
  simp only [isAlphanumeric, isAlphabetic, isDigit, Bool.or_eq_true, Bool.and_eq_true,
    decide_eq_true_eq, UInt8.le_iff_toNat_le, ← UInt8.toNat_inj, UInt8.reduceToNat]

theorem isHostChar (host : HostName) :
    ∀ b ∈ Utf8.encode host.text, (isAlphanumeric b || b = 0x2e) = true := by
  have range : ∀ c ∈ host.text.toList, c.toNat < 128 := by
    intro c member
    have := (hostChar_range c).mp (host.chars c member)
    omega
  rw [Utf8.encode_ascii range]
  intro b member
  obtain ⟨c, inside, rfl⟩ := List.mem_map.mp member
  have size : (UInt8.ofNat c.toNat).toNat = c.toNat := by
    have := range c inside
    rw [UInt8.toNat_ofNat']
    omega
  rw [hostByte_range, size]
  exact (hostChar_range c).mp (host.chars c inside)

theorem hostname_text (host : HostName) (more : Bytes) :
    hostname (Utf8.encode (host.text ++ " ") ++ more) = some (more, Utf8.encode host.text) := by
  rw [Utf8.encode_append, List.append_assoc]
  have name := takeWhile1_append (Utf8.encode " " ++ more) (isHostChar host)
    (Utf8.encode_ne_nil host.nonempty) (by rintro _ ⟨⟩; rfl)
  exact terminated_some name (tag_append _ more)

theorem isIdentifier_of_mem (identifier : Identifier) :
    ∀ b ∈ Utf8.encode identifier.text, isIdentifier b = true := by
  intro b member
  by_contra separator
  have ascii : b = 0x3a ∨ b = 0x5b ∨ b = 0x20 ∨ b = 0x09 := by
    simp [isIdentifier, isSpace] at separator
    tauto
  -- The separators are below 0x80, so such a byte is a character of the text.
  have small : b.toNat < 128 := by
    rcases ascii with rfl | rfl | rfl | rfl <;> decide
  apply identifier.chars _ (Utf8.mem_encode_ascii member small)
  rcases ascii with rfl | rfl | rfl | rfl <;> decide

/-- An identifier is not taken for a host name: no space follows it. -/
theorem hostname_none (identifier : Identifier) {more : Bytes} {b : UInt8}
    (boundary : more.head? = some b) (colon : b = 0x3a ∨ b = 0x5b) :
    hostname (Utf8.encode identifier.text ++ more) = none := by
  have outside : (isAlphanumeric b || b = 0x2e) = false := by
    rcases colon with rfl | rfl <;> rfl
  obtain ⟨stop, head, origin⟩ := dropWhile_head (p := fun b => isAlphanumeric b || b = 0x2e)
    (Utf8.encode identifier.text) boundary outside
  apply terminated_takeWhile1_none
  apply tag_none_of_head (t := [])
  rw [head]
  rintro ⟨⟩
  rcases origin with inside | rfl
  · exact absurd (isIdentifier_of_mem identifier _ inside) (by decide)
  · exact absurd colon (by decide)

theorem pid_text (n : UInt64) (more : Bytes) :
    pid (Utf8.encode (pidText n) ++ more) = some (more, n) := by
  have number := Decimal.digit1_repr n.toNat (Utf8.encode "]" ++ more)
    (by rintro _ ⟨⟩; rfl)
  have read := preceded_some (tag_append (Utf8.encode "[") _)
    (terminated_some number (tag_append (Utf8.encode "]") more))
  have split : Utf8.encode (pidText n) ++ more = Utf8.encode "[" ++
      (Utf8.encode (Nat.repr n.toNat) ++ (Utf8.encode "]" ++ more)) := by
    simp only [pidText, Utf8.encode_append, List.append_assoc]
  rw [← split] at read
  exact mapRes_some (mapRes_some read (Utf8.fromUtf8_encode _)) (Decimal.parseU64_repr n)

theorem pidText_head (n : UInt64) (more : Bytes) :
    (Utf8.encode (pidText n) ++ more).head? = some 0x5b := by
  simp only [pidText, Utf8.encode_append, List.append_assoc]
  rfl

theorem identifierAndPid_text (identifier : Identifier) (number : Option UInt64) (more : Bytes) :
    identifierAndPid (Utf8.encode identifier.text ++ (Utf8.encode ((number.map pidText).getD "") ++
      (Utf8.encode ": " ++ more))) = some (more, Utf8.encode identifier.text, number) := by
  have inside := isIdentifier_of_mem identifier
  have nonempty := Utf8.encode_ne_nil identifier.nonempty
  cases number with
  | none =>
    have name := takeWhile1_append (Utf8.encode ": " ++ more) inside nonempty
      (by rintro _ ⟨⟩; rfl)
    have colon : (Utf8.encode ": " ++ more).head? ≠ some 0x5b := by
      rintro ⟨⟩
    have noPid : pid (Utf8.encode ": " ++ more) = none :=
      mapRes_none _ (mapRes_none _ (preceded_none _ (tag_none_of_head (t := []) colon)))
    exact terminated_some (pair_some name (opt_none noPid)) (tag_append _ more)
  | some n =>
    have name := takeWhile1_append (Utf8.encode (pidText n) ++ (Utf8.encode ": " ++ more))
      inside nonempty (by rw [pidText_head]; rintro _ ⟨⟩; rfl)
    exact terminated_some (pair_some name (opt_some (pid_text n _))) (tag_append _ more)

/-- The identifier with what may follow it. -/
abbrev identBytes (identifier : Identifier) (number : Option UInt64) (more : Bytes) : Bytes :=
  Utf8.encode identifier.text ++ (Utf8.encode ((number.map pidText).getD "") ++
    (Utf8.encode ": " ++ more))

theorem host_text (host : Option HostName) (identifier : Identifier) (number : Option UInt64)
    (more : Bytes) :
    opt hostname (Utf8.encode ((host.map (fun host => host.text ++ " ")).getD "") ++
        identBytes identifier number more) =
      some (identBytes identifier number more, host.map (fun host => Utf8.encode host.text)) := by
  cases host with
  | some host => exact opt_some (hostname_text host _)
  | none =>
    have absent : hostname (identBytes identifier number more) = none := by
      cases number with
      | some n => exact hostname_none identifier (pidText_head n _) (.inr rfl)
      | none => exact hostname_none identifier (b := 0x3a) rfl (.inl rfl)
    exact opt_none absent

theorem tail_text (tail : Tail) :
    pair (opt hostname) (pair (opt identifierAndPid) rest) (Utf8.encode tail.text) =
      some ([], tail.hostname.map (fun host => Utf8.encode host.text),
        some (Utf8.encode tail.identifier.text, tail.pid), Utf8.encode tail.message) := by
  have named := identifierAndPid_text tail.identifier tail.pid (Utf8.encode tail.message)
  have after : pair (opt identifierAndPid) rest
      (identBytes tail.identifier tail.pid (Utf8.encode tail.message)) = some ([], some _, _) :=
    pair_some (opt_some named) rfl
  have split : Utf8.encode tail.text =
      Utf8.encode ((tail.hostname.map (fun host => host.text ++ " ")).getD "") ++
        identBytes tail.identifier tail.pid (Utf8.encode tail.message) := by
    simp only [Tail.text, identBytes, Utf8.encode_append, List.append_assoc]
  rw [split]
  exact pair_some (host_text tail.hostname tail.identifier tail.pid _) after

theorem low_bits (pri : UInt8) : pri &&& 0x7 = pri % 8 := by
  apply UInt8.toNat_inj.mp
  exact Nat.and_two_pow_sub_one_eq_mod pri.toNat 3

theorem high_bits (pri : UInt8) : pri >>> 3 = pri / 8 := by
  apply UInt8.toNat_inj.mp
  exact Nat.shiftRight_eq_div_pow pri.toNat 3

/-- The parts that a line is made of. -/
def Line.parts {env : Environment} (line : Line env) : Parts :=
  (line.pri.map (fun pri => (pri % 8, facilityName (pri / 8))), some line.stamp.instant,
    line.tail.hostname.map (fun host => Utf8.encode host.text),
    some (Utf8.encode line.tail.identifier.text, line.tail.pid), Utf8.encode line.tail.message)

/-- What a line says. -/
def Line.parsed {env : Environment} (line : Line env) : SyslogMessage where
  priority := (line.pri.map (· % 8)).getD 5
  facility := (line.pri.map (fun pri => facilityName (pri / 8))).getD "user"
  source_timestamp := line.stamp.instant
  hostname := line.tail.hostname.map HostName.text
  identifier := some line.tail.identifier.text
  pid := line.tail.pid
  message := line.tail.message
  full_message := line.text

theorem pri_text {env : Environment} (pri : Option UInt8) (stamp : LocalStamp env) (more : Bytes) :
    opt prioAndFacility (Utf8.encode ((pri.map priText).getD "") ++
        (Utf8.encode stamp.text ++ more)) =
      some (Utf8.encode stamp.text ++ more,
        pri.map (fun pri => (pri % 8, facilityName (pri / 8)))) := by
  cases pri with
  | some pri =>
    have read := opt_some (prioAndFacility_text pri (Utf8.encode stamp.text ++ more))
    rw [low_bits, high_bits] at read
    exact read
  | none =>
    obtain ⟨b, head, letter⟩ := stamp_head stamp more
    simp only [Option.map_none, Option.getD_none, Utf8.encode_empty, List.nil_append]
    refine opt_none (prioAndFacility_none ?_)
    rw [head]
    rintro ⟨⟩
    contradiction

/-- The parts of a line, one after the other. -/
theorem line_parts (env : Environment) (line : Line env) :
    parts env (Utf8.encode line.text) = some ([], line.parts) := by
  have split : Utf8.encode line.text = Utf8.encode ((line.pri.map priText).getD "") ++
      (Utf8.encode line.stamp.text ++ Utf8.encode line.tail.text) := by
    simp only [Line.text, Utf8.encode_append, List.append_assoc]
  rw [split]
  exact pair_some (pri_text line.pri line.stamp (Utf8.encode line.tail.text))
    (pair_some (opt_some (timestamp_text line.stamp _)) (tail_text line.tail))

theorem messageOfParts_line (env : Environment) (line : Line env) :
    messageOfParts env (Utf8.encode line.text) line.parts = line.parsed := by
  rw [Line.parsed, Line.parts, messageOfParts]
  cases line.pri <;> cases line.tail.hostname <;> simp [messageText]

theorem parseSyslog_parts (env : Environment) (line : Line env) :
    parseSyslog env (Utf8.encode line.text) =
      some ([], messageOfParts env (Utf8.encode line.text) line.parts) :=
  map_some _ (line_parts env line)

/-- Every line is read back as what it says, with nothing left over. -/
theorem parseSyslog_text (env : Environment) (line : Line env) :
    parseSyslog env (Utf8.encode line.text) = some ([], line.parsed) := by
  rw [parseSyslog_parts, messageOfParts_line]

end Yaffle.Syslog

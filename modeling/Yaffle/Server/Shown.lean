import Yaffle.Ingest.Cells
import Yaffle.Search.Answer
import Yaffle.Search.Lossless
import Yaffle.Server.Delivery

/-! From the sockets to the page: what was posted to Quickwit is what a search shows, if
Quickwit gives back what it was given. -/
namespace Yaffle.Server
open Chrono Json Gelf Syslog Ingest Schema Search Fallible
variable {Addr : Type}

/-- The document is made of the message of the item. -/
def StoredFrom (ip : Addr → String) (item : Item Addr) (doc : Document) : Prop :=
  ∃ arrival, Meets ip item arrival ∧ arrival.stored = some doc

/-- The hit has the entries of the line, in any order and with others beside them. -/
def GivesBack (serde : SerdeJson) (line : Bytes) (hit : Value) : Prop :=
  ∃ stored entries others, serde.entries line = some stored ∧ hit = .object entries ∧
    entries.Perm (stored ++ others) ∧ ∀ entry ∈ others, entry.1 ∉ schema.map Field.name

/-- A line that one of the requests carries. -/
def State.Carried (s : State Addr) (line : Bytes) : Prop :=
  line ≠ [] ∧ line ∈ (s.submitted.map Prod.snd).flatten.splitOn newline

theorem exists_of_forall₂ {r : α → β → Prop} {as : List α} {bs : List β}
    (related : List.Forall₂ r as bs) {b : β} (member : b ∈ bs) : ∃ a ∈ as, r a b := by
  induction related with
  | nil => contradiction
  | cons first _ ih =>
    rcases List.mem_cons.mp member with rfl | later
    · exact ⟨_, List.mem_cons_self, first⟩
    · obtain ⟨a, inside, holds⟩ := ih later
      exact ⟨a, List.mem_cons_of_mem _ inside, holds⟩

section Lines
variable {services : Services} {ip : Addr → String} {s : State Addr} {posted lost : List Arrival}

/-- Every line of the requests is the document of a message that was handled. -/
theorem document_of_line (faithful : services.serde.Faithful)
    (holds : Posted services ip s posted lost) {line : Bytes} (carried : s.Carried line) :
    ∃ doc, line = doc.toWriter services.serde ∧ ∃ item ∈ s.handled, StoredFrom ip item doc := by
  obtain ⟨nonempty, inside⟩ := carried
  rw [holds.bodies, splitOn_terminate (lines_whole services faithful posted),
    List.mem_append, List.mem_singleton] at inside
  obtain ⟨doc, found, rfl⟩ := List.mem_map.mp (inside.resolve_right nonempty)
  obtain ⟨arrival, member, stored⟩ := List.mem_filterMap.mp found
  obtain ⟨item, handled, meets⟩ :=
    exists_of_forall₂ holds.met (List.mem_append_left lost member)
  exact ⟨doc, rfl, item, handled, arrival, meets, stored⟩

theorem document_of_hit {serde : SerdeJson} (faithful : serde.Faithful) {doc : Document}
    {hit : Value} (gives : GivesBack serde (doc.toWriter serde) hit) :
    deserializeDocument hit = some doc := by
  obtain ⟨stored, entries, others, read, rfl, same, foreign⟩ := gives
  rw [Document.toWriter, faithful.decodes, Option.some.injEq] at read
  subst read
  exact visitMap_of_perm same foreign

theorem documents_of_hits (faithful : services.serde.Faithful)
    (holds : Posted services ip s posted lost) {found : List Bytes} {hits : List Value}
    (carried : ∀ line ∈ found, s.Carried line)
    (given : List.Forall₂ (GivesBack services.serde) found hits) :
    ∃ docs, List.Forall₂ (fun line doc => line = doc.toWriter services.serde ∧
        ∃ item ∈ s.handled, StoredFrom ip item doc) found docs ∧
      List.Forall₂ (fun hit doc => deserializeDocument hit = some doc) hits docs := by
  induction given with
  | nil => exact ⟨[], .nil, .nil⟩
  | cons first _ ih =>
    obtain ⟨head, later⟩ := List.forall_mem_cons.mp carried
    obtain ⟨docs, lines, read⟩ := ih later
    obtain ⟨doc, rfl, source⟩ := document_of_line faithful holds head
    exact ⟨doc :: docs, .cons ⟨rfl, source⟩ lines, .cons (document_of_hit faithful first) read⟩

end Lines

section Answer
variable {crate : UrlCrate} {get : String → Except String (Except String Bytes)}
  {slice : FromSlice} {settings : Settings} {options : SearchOptions} {uri : String} {body : Bytes}
  {answer : Value}

/-- An answer that can be read gives its hits to the search. -/
theorem findHits_answer (built : (buildSearchUri crate settings options).Accepts uri)
    (answered : get uri = .ok (.ok body)) (parsed : slice.parse body = .ok answer)
    {docs : List Document}
    (read : (SearchResults.deserialize answer).map SearchResults.hits = some docs) :
    (findHits (answerBackend crate get slice) settings options).Accepts docs := by
  obtain ⟨results, deserialized, rfl⟩ := Option.map_eq_some_iff.mp read
  have decoded : decodeHits (answerBackend crate get slice) body = .ok results.hits := by
    simp only [decodeHits, answerBackend, parsed, Except.bind, bind, deserialized,
      Except.mapError]
  refine accepts_bind.mpr ⟨uri, built, ?_⟩
  change (ofExcept (get uri) >>= _ : Fallible String (List Document)).Accepts _
  rw [answered]
  refine accepts_bind.mpr ⟨_, accepts_pure _, accepts_bind.mpr ⟨body, accepts_pure _, ?_⟩⟩
  rw [decoded]
  exact accepts_pure _

end Answer

/-- In every run, for any choice of the lines that were posted: if Quickwit answers a
search with hits that give these lines back, the search returns the table of the
documents of handled messages, one for each hit. -/
theorem posted_documents_shown {codecs : Codecs} {services : Services} {settings : Settings}
    {ip : Addr → String} {events : List (Event Addr)} {s : State Addr}
    (faithful : services.serde.Faithful) (run : Runs codecs services settings ip events s)
    {found : List Bytes} (carried : ∀ line ∈ found, s.Carried line) {hits : List Value}
    (given : List.Forall₂ (GivesBack services.serde) found hits)
    {crate : UrlCrate} {get : String → Except String (Except String Bytes)} {slice : FromSlice}
    {options : SearchOptions} {uri : String} {body : Bytes} {answer : Value}
    (built : (buildSearchUri crate settings options).Accepts uri)
    (answered : get uri = .ok (.ok body)) (parsed : slice.parse body = .ok answer)
    (answers : Answers answer hits) (timestampText : TimestampText) (order : HashOrder String)
    (sorter : SliceSort String) :
    ∃ docs table, List.Forall₂ (fun line doc => line = doc.toWriter services.serde ∧
        ∃ item ∈ s.handled, StoredFrom ip item doc) found docs ∧
      (search timestampText order sorter (answerBackend crate get slice) settings options).Accepts
        table ∧ IsTable timestampText docs table := by
  obtain ⟨posted, lost, holds⟩ := runs_posted run
  obtain ⟨docs, lines, read⟩ := documents_of_hits faithful holds carried given
  have hits := findHits_answer built answered parsed (deserialize_answer answers read)
  exact ⟨docs, _, lines, accepts_bind.mpr ⟨docs, hits, accepts_pure _⟩,
    resultTable_isTable timestampText order sorter docs⟩

section Line
variable {env later : Environment} (line : Line env) {usec : UInt64}

theorem accepts_line (converted : convertDatetimeToUsec later line.stamp.instant = .ok usec) :
    ∃ doc, (fromSyslog later line.parsed).Accepts doc :=
  (fromSyslog_accepts_some later line.parsed).mpr
    ((convertDatetimeToUsec_ok later _).mp ⟨usec, converted⟩)

theorem isValid_of_fieldsOf {msg : SyslogMessage} {doc : Document}
    (given : FieldsOf msg usec doc) (positive : 0 < usec) (nonempty : msg.message ≠ "") :
    doc.isValid = true := by
  simp [Document.isValid, given.sourceTimestamp, given.message, positive, nonempty]

/-- A line with a date after the epoch and a message is stored. -/
theorem stored_line (arrival : Arrival) (record : arrival.record = .syslog line.parsed)
    (converted : convertDatetimeToUsec arrival.env line.stamp.instant = .ok usec)
    (positive : 0 < usec) (nonempty : line.tail.message ≠ "") :
    ∃ doc, arrival.stored = some doc ∧ FieldsOf
      { line.parsed with
        hostname := some ((line.tail.hostname.map HostName.text).getD arrival.sourceName) }
      usec doc := by
  obtain ⟨doc, accepted⟩ := accepts_line line converted
  have given := fieldsOf_of_accepts accepted converted
  have decoded : arrival.decode.run = .ok (.ok doc) := by
    rw [Arrival.decode, record]
    exact accepted
  refine ⟨_, ?_, given.doReverseDns arrival⟩
  rw [Arrival.stored, decoded]
  exact if_pos (isValid_of_fieldsOf given positive nonempty)

end Line

/-- A BSD line, its datagram and its record. -/
def sampleLine : Line sampleEnvironment := ⟨some 165, sampleStamp, sampleTail⟩

def lineDatagram : Datagram Unit := ⟨(), Utf8.encode sampleLine.text, sampleEnvironment⟩

theorem sampleLine_read :
    parseSyslog sampleEnvironment (Utf8.encode sampleLine.text) = some ([], sampleLine.parsed) := by
  rw [parseSyslog_parts, messageOfParts_line]

theorem sampleLine_converted :
    convertDatetimeToUsec sampleEnvironment sampleLine.stamp.instant = .ok 1697062455000000 := rfl

theorem sample_stored : ∃ doc,
    Arrival.stored ⟨"::1", .syslog sampleLine.parsed, sampleEnvironment, some none⟩ = some doc ∧
      doc.sourceTimestamp = some 1697062455000000 := by
  obtain ⟨doc, stored, given⟩ := stored_line sampleLine
    ⟨"::1", .syslog sampleLine.parsed, sampleEnvironment, some none⟩ rfl sampleLine_converted
    (by decide) (by simp [sampleLine, sampleTail])
  exact ⟨doc, stored, given.sourceTimestamp⟩

/-- The line is received, handled and posted. -/
theorem sample_posted : ∃ s : State Unit, ∃ doc : Document, ∃ events,
    Runs smallCodecs sampleServices sampleSettings (fun _ => "::1") events s ∧
      s.Carried (doc.toWriter sampleServices.serde) ∧
      doc.sourceTimestamp = some 1697062455000000 := by
  obtain ⟨doc, stored, date⟩ := sample_stored
  have run : Runs smallCodecs sampleServices sampleSettings (fun _ => "::1")
      [.syslogDatagram lineDatagram, .acceptSyslog, .takeSyslog, .timeout,
        .round (sampleBatch sampleLine.parsed)] _ :=
    .next (.syslogDatagram rfl sampleLine_read) (.next (.acceptSyslog
      (live_of_gathering rfl) rfl) (.next (.takeSyslog rfl rfl) (.next (.timeout rfl
        (List.cons_ne_nil _ _)) (.one (.round rfl (.cons ⟨rfl, rfl⟩ .nil))))))
  have survives : ∀ arrival ∈ (sampleBatch sampleLine.parsed).chunk.arrivals,
      arrival.decode.Survives := by
    intro arrival member
    rw [List.mem_singleton.mp member]
    obtain ⟨doc, accepted⟩ := accepts_line sampleLine sampleLine_converted
    exact ⟨_, accepted⟩
  have request : (ingestRound sampleServices sampleSettings (sampleBatch sampleLine.parsed)).1 =
      some (ingestUri sampleSettings,
        terminate (lines sampleServices (sampleBatch sampleLine.parsed).chunk.arrivals)) := by
    rw [ingestRound, batchBody_eq sampleServices survives]
    rfl
  have posted : doc.toWriter sampleServices.serde ∈
      lines sampleServices (sampleBatch sampleLine.parsed).chunk.arrivals :=
    List.mem_map_of_mem (List.mem_filterMap.mpr ⟨_, List.mem_cons_self, stored⟩)
  refine ⟨_, doc, _, run, ⟨?_, ?_⟩, date⟩
  · exact Utf8.encode_ne_nil (by simp [JsonText.objectText])
  · have bodies : (([] ++ (ingestRound sampleServices sampleSettings
        (sampleBatch sampleLine.parsed)).1.toList).map Prod.snd).flatten =
          terminate (lines sampleServices (sampleBatch sampleLine.parsed).chunk.arrivals) := by
      simp only [request, Option.toList_some, List.nil_append, List.map_cons, List.map_nil,
        List.flatten_cons, List.flatten_nil, List.append_nil]
    change _ ∈ (List.flatten (List.map Prod.snd ([] ++ _))).splitOn newline
    rw [bodies, splitOn_terminate (lines_whole sampleServices jsonText_faithful _)]
    exact List.mem_append_left _ posted

/-- Among all hits and in every order of the hash tables, the row of a BSD line shows its
parts under their names, the sender where the line names no host, and nothing else. -/
theorem bsd_line_shown {env later : Environment} (line : Line env) {usec : UInt64}
    (converted : convertDatetimeToUsec later line.stamp.instant = .ok usec) (positive : 0 < usec)
    (nonempty : line.tail.message ≠ "") (srcIp : String) (lookup : Document.LookupResult) :
    ∃ m doc, parseSyslog env (Utf8.encode line.text) = some ([], m) ∧
      Arrival.stored ⟨srcIp, .syslog m, later, lookup⟩ = some doc ∧
      ∀ (timestampText : TimestampText) (order : HashOrder String) (sorter : SliceSort String)
        (before after : List Document),
        let table := resultTable timestampText order sorter (before ++ doc :: after)
        let cells := messageCells timestampText line.parsed usec
          ((line.tail.hostname.map HostName.text).getD
            (Arrival.sourceName ⟨srcIp, .syslog m, later, lookup⟩))
        table.2[before.length]? = some (table.1.map fun name => cells.lookup name) ∧
          ∀ cell ∈ cells, cell.1 ∈ table.1 := by
  obtain ⟨doc, stored, given⟩ := stored_line line ⟨srcIp, .syslog line.parsed, later, lookup⟩
    rfl converted positive nonempty
  have read : parseSyslog env (Utf8.encode line.text) = some ([], line.parsed) := by
    rw [parseSyslog_parts, messageOfParts_line]
  refine ⟨line.parsed, doc, read, stored, ?_⟩
  intro timestampText order sorter before after table cells
  have shown (name : String) :
      (doc.toDisplay timestampText).lookup name = cells.lookup name :=
    lookup_of_fieldsOf given rfl name
  constructor
  · simp only [table, resultTable_rows, List.map_append, List.map_cons]
    rw [List.getElem?_append_right (by simp)]
    simp [shown]
  · intro cell member
    rw [(resultTable_isTable timestampText order sorter _).columns]
    refine ⟨doc, by simp, (mem_keys_toDisplay timestampText doc cell.1).mp ?_⟩
    rw [Finmap.mem_keys, ← Finmap.lookup_isSome, shown]
    exact List.lookup_isSome_iff.mpr ⟨cell, member, by simp⟩

theorem mem_row_of_lookup {cells : List (String × String)} {columns : List String}
    (known : ∀ cell ∈ cells, cell.1 ∈ columns) {name text : String}
    (found : cells.lookup name = some text) :
    some text ∈ columns.map fun name => cells.lookup name := by
  obtain ⟨cell, member, same⟩ := List.lookup_isSome_iff.mp (Option.isSome_of_eq_some found)
  refine List.mem_map.mpr ⟨name, ?_, found⟩
  rw [eq_of_beq same]
  exact known cell member

theorem bsd_line_shown_sample : ∃ m doc,
    parseSyslog sampleEnvironment (Utf8.encode sampleLine.text) = some ([], m) ∧
      Arrival.stored ⟨"::1", .syslog m, sampleEnvironment, some none⟩ = some doc ∧
      ∃ row, (resultTable sampleTimestampText (.ascending String) (.mergeSort String)
          [doc]).2[0]? = some row ∧
        some "2023-10-11 22:14:15 UTC" ∈ row ∧ some "5 (Notice)" ∈ row ∧ some "8710" ∈ row := by
  obtain ⟨m, doc, parsed, stored, shown⟩ := bsd_line_shown sampleLine sampleLine_converted
    (by decide) (by simp [sampleLine, sampleTail]) "::1" (some none)
  obtain ⟨row, columns⟩ := shown sampleTimestampText (.ascending String) (.mergeSort String) [] []
  have date : (messageCells sampleTimestampText sampleLine.parsed 1697062455000000
    "mymachine").lookup "source_timestamp" = some "2023-10-11 22:14:15 UTC" := rfl
  have priority : (messageCells sampleTimestampText sampleLine.parsed 1697062455000000
    "mymachine").lookup "priority" = some "5 (Notice)" := rfl
  have pid : (messageCells sampleTimestampText sampleLine.parsed 1697062455000000
    "mymachine").lookup "syslog_pid" = some "8710" := rfl
  exact ⟨m, doc, parsed, stored, _, row, mem_row_of_lookup columns date,
    mem_row_of_lookup columns priority, mem_row_of_lookup columns pid⟩

/-- The text of an answer with one hit, and what it says. -/
def sampleBody (doc : Document) : Bytes :=
  Utf8.encode "\x7b\"elapsed_time_micros\":42,\"errors\":[],\"hits\":[" ++
    doc.toWriter jsonText ++ Utf8.encode "],\"num_hits\":1\x7d"

def sampleAnswer (doc : Document) : Value :=
  .object [("elapsed_time_micros", .number "42"), ("errors", .array []),
    ("hits", .array [.object (serializeFields doc).values]), ("num_hits", .number "1")]

def sampleSlice (doc : Document) : FromSlice where
  parse body := if body = sampleBody doc then .ok (sampleAnswer doc) else .error "expected value"
  mismatch _ := "invalid type"

theorem sampleAnswer_answers (doc : Document) :
    Answers (sampleAnswer doc) [.object (serializeFields doc).values] :=
  ⟨_, [], 42, 1, [], rfl, .refl _, by simp⟩

theorem sample_givesBack (doc : Document) :
    GivesBack jsonText (doc.toWriter jsonText) (.object (serializeFields doc).values) :=
  ⟨_, _, [], jsonText_faithful.decodes _, rfl, by rw [List.append_nil], by simp⟩

theorem posted_documents_shown_sample : ∃ s : State Unit, ∃ line, ∃ crate get slice docs table,
    s.Carried line ∧ List.Forall₂ (fun line doc => line = doc.toWriter jsonText ∧
        ∃ item ∈ s.handled, StoredFrom (fun _ => "::1") item doc) [line] docs ∧
      (search sampleTimestampText (.ascending String) (.mergeSort String)
        (answerBackend crate get slice) sampleSettings ⟨"", none, none⟩).Accepts table ∧
      IsTable sampleTimestampText docs table := by
  obtain ⟨s, doc, events, run, carried, _⟩ := sample_posted
  have known : ∀ line ∈ [doc.toWriter jsonText], s.Carried line := by
    intro line member
    rwa [List.mem_singleton.mp member]
  have built : (buildSearchUri sampleCrate sampleSettings ⟨"", none, none⟩).Accepts _ := rfl
  have parsed : (sampleSlice doc).parse (sampleBody doc) = .ok (sampleAnswer doc) := if_pos rfl
  let get (_ : String) : Except String (Except String Bytes) := .ok (.ok (sampleBody doc))
  have answered (uri : String) : get uri = .ok (.ok (sampleBody doc)) := rfl
  obtain ⟨docs, table, lines, found, shown⟩ := posted_documents_shown jsonText_faithful run known
    (.cons (sample_givesBack doc) .nil) built (answered _) parsed (sampleAnswer_answers doc)
    sampleTimestampText (.ascending String) (.mergeSort String)
  exact ⟨s, _, _, _, _, docs, table, carried, lines, found, shown⟩

end Yaffle.Server

import Yaffle.Search.Window
import Yaffle.Server.Shown

/-! From the query string of the page to its table: the search that the page asks for, and
what it shows of the posted documents when Quickwit answers as it is documented. -/
namespace Yaffle.Server
open Chrono Json Gelf Ingest Schema Search Fallible

/-- Written no more than so many minutes ago, in full seconds; zero minutes are no limit. -/
def InWindow (now : Duration) (reltime : UInt32) (usec : Nat) : Prop :=
  reltime = 0 ∨ now.nanos / nanosPerSec ≤ usec / usecPerSec + 60 * reltime.toNat

instance (now : Duration) (reltime : UInt32) (usec : Nat) : Decidable (InWindow now reltime usec) :=
  inferInstanceAs (Decidable (_ ∨ _))

/-- The search that asks for the window without machine arithmetic. -/
def askedOptions (now : Duration) (reltime : UInt32) (query : String) : SearchOptions :=
  ⟨query, (exactStart now reltime).map UInt64.ofNat, none⟩

def usecOf (doc : Document) : Nat := (doc.sourceTimestamp.map UInt64.toNat).getD 0

section Asked
variable {overflowChecks : Bool} {now : Duration} {reltime : UInt32}

theorem computable_of_offered (offered : reltime ∈ reltimes.map Prod.fst) :
    Computable overflowChecks now reltime := by
  obtain ⟨entry, member, rfl⟩ := List.mem_map.mp offered
  exact passesExact_iff.mp (reltimes_exact overflowChecks now member)

theorem passes_asked (computable : Computable overflowChecks now reltime) :
    Passes overflowChecks now reltime ((exactStart now reltime).map UInt64.ofNat) := by
  obtain ⟨start, passes, exact'⟩ := passesExact_iff.mpr computable
  have same : (exactStart now reltime).map UInt64.ofNat = start := by
    rw [← exact', Option.map_map]
    cases start with
    | none => rfl
    | some start => exact congrArg some UInt64.ofNat_toNat
  exact same ▸ passes

theorem admits_asked (query : String) (usec : Nat) :
    (askedOptions now reltime query).admits usec = true ↔ InWindow now reltime usec := by
  by_cases unlimited : reltime = 0
  · rw [askedOptions, exactStart, if_pos unlimited]
    exact iff_of_true (admits_none query usec) (.inl unlimited)
  · rw [askedOptions, exactStart_of_ne unlimited, InWindow, or_iff_right unlimited, windowStart]
    split
    · rename_i before
      rw [lt_secs_iff] at before
      exact iff_of_true (admits_none query usec) (before.le.trans (Nat.le_add_left _ _))
    · have small : now.nanos / nanosPerSec - 60 * reltime.toNat < UInt64.size :=
        (Nat.sub_le _ _).trans_lt (Nat.div_lt_of_lt_mul (Nat.mul_comm _ _ ▸ now.bounded))
      rw [Option.map_some, admits_some, UInt64.toNat_ofNat_of_lt' small,
        ← Nat.le_div_iff_mul_le (by decide)]
      exact Nat.sub_le_iff_le_add

/-- What the API answers to the search asked for is what the page gets. -/
theorem accepts_searchRes {maybeQstr : Option SearchParams} {query : String}
    (params : paramsSignal maybeQstr = (reltime, query))
    (computable : Computable overflowChecks now reltime) {api : ServerApi} {table : Table}
    (found : (api (askedOptions now reltime query)).Accepts table) :
    (searchRes overflowChecks (some api) (some now) maybeQstr).Accepts table := by
  rw [searchRes, params, passes_asked computable api, Accepts]
  change Except.mapError _ <$> (api (askedOptions now reltime query)).run = _
  rw [found]
  rfl

/-- A documented endpoint answers it with the newest documents of the window. -/
theorem answer_asked (endpoint : Endpoint Hit) (query : String) :
    endpoint.answer (queryPairs (askedOptions now reltime query)) =
      ((endpoint.matching query).filter fun hit =>
        InWindow now reltime (endpoint.usec hit)).take 1000 := by
  rw [endpoint.documented]
  refine congrArg (List.take 1000) (List.filter_congr fun hit _ => ?_)
  exact Bool.eq_iff_iff.mpr ((admits_asked query _).trans decide_eq_true_iff.symm)

end Asked

/-- In every run, for whatever posted documents Quickwit holds and finds: if it answers the
search as documented, with hits that give the lines back, then for every time and every
query string with a window that the page offers, the page gets the table of the newest
1000 of these documents that were written in the window. -/
theorem offered_window_shown {codecs : Codecs} {services : Services} {settings : Settings}
    {ip : Addr → String} {events : List (Event Addr)} {s : State Addr}
    (faithful : services.serde.Faithful) (run : Runs codecs services settings ip events s)
    (overflowChecks : Bool) (now : Duration) {maybeQstr : Option SearchParams} {reltime : UInt32}
    {query : String} (params : paramsSignal maybeQstr = (reltime, query))
    (offered : reltime ∈ reltimes.map Prod.fst) {endpoint : Endpoint Document}
    (dated : endpoint.usec = usecOf)
    (held : ∀ doc ∈ endpoint.matching query, s.Carried (doc.toWriter services.serde))
    {crate : UrlCrate} {get : String → Except String (Except String Bytes)} {slice : FromSlice}
    {uri : String} {body : Bytes} {answer : Value} {hits : List Value}
    (built : (buildSearchUri crate settings (askedOptions now reltime query)).Accepts uri)
    (answered : get uri = .ok (.ok body)) (parsed : slice.parse body = .ok answer)
    (answers : Answers answer hits)
    (given : List.Forall₂ (fun doc => GivesBack services.serde (doc.toWriter services.serde))
      (endpoint.answer (queryPairs (askedOptions now reltime query))) hits)
    (timestampText : TimestampText) (order : HashOrder String) (sorter : SliceSort String) :
    let shown := ((endpoint.matching query).filter fun doc =>
      InWindow now reltime (usecOf doc)).take 1000
    (∃ table, (searchRes overflowChecks
        (some (search timestampText order sorter (answerBackend crate get slice) settings))
        (some now) maybeQstr).Accepts table ∧ IsTable timestampText shown table) ∧
      ∀ doc ∈ shown, ∃ item ∈ s.handled, StoredFrom ip item doc := by
  intro shown
  rw [answer_asked, dated] at given
  constructor
  · have read : List.Forall₂ (fun hit doc => deserializeDocument hit = some doc) hits shown :=
      (given.imp fun doc hit gives => document_of_hit faithful gives).flip
    have hits := findHits_answer built answered parsed (deserialize_answer answers read)
    exact ⟨_, accepts_searchRes params (computable_of_offered offered)
      (accepts_bind.mpr ⟨shown, hits, accepts_pure _⟩),
      resultTable_isTable timestampText order sorter shown⟩
  · intro doc member
    obtain ⟨posted, lost, holds⟩ := runs_posted run
    obtain ⟨found, _⟩ := List.mem_filter.mp (List.mem_of_mem_take member)
    obtain ⟨other, same, source⟩ := document_of_line faithful holds (held doc found)
    have decoded := fromSlice_toWriter faithful doc
    rw [same, fromSlice_toWriter faithful other, Option.some.injEq] at decoded
    exact decoded ▸ source

/-- A line of 45 seconds ago is found in the window of five minutes, which is the one that
a page without a query string asks for. -/
theorem offered_window_shown_sample : ∃ s : State Unit, ∃ doc get, ∃ slice table,
    (searchRes true (some (search sampleTimestampText (.ascending String) (.mergeSort String)
        (answerBackend sampleCrate get slice) sampleSettings))
        (some (.fromSecs 1697062500)) none).Accepts table ∧
      IsTable sampleTimestampText [doc] table ∧
      ∃ item ∈ s.handled, StoredFrom (fun _ => "::1") item doc := by
  obtain ⟨s, doc, events, run, carried, date⟩ := sample_posted
  have inside : InWindow (.fromSecs 1697062500) 5 (usecOf doc) := by
    rw [usecOf, date]
    exact .inr (by decide)
  let endpoint : Endpoint Document := .ofIndex usecOf [doc] (List.pairwise_singleton _ _)
  have shown : ((endpoint.matching "*").filter fun doc =>
      InWindow (.fromSecs 1697062500) 5 (usecOf doc)).take 1000 = [doc] := by
    simp [endpoint, Endpoint.ofIndex, inside]
  have held : ∀ other ∈ endpoint.matching "*", s.Carried (other.toWriter jsonText) := by
    intro other member
    rwa [List.mem_singleton.mp member]
  have params : paramsSignal none = (5, "*") := rfl
  let get (_ : String) : Except String (Except String Bytes) := .ok (.ok (sampleBody doc))
  have built : (buildSearchUri sampleCrate sampleSettings
    (askedOptions (.fromSecs 1697062500) 5 "*")).Accepts _ := rfl
  have answered (uri : String) : get uri = .ok (.ok (sampleBody doc)) := rfl
  have parsed : (sampleSlice doc).parse (sampleBody doc) = .ok (sampleAnswer doc) := if_pos rfl
  have given : List.Forall₂ (fun doc => GivesBack jsonText (doc.toWriter jsonText))
      (endpoint.answer (queryPairs (askedOptions (.fromSecs 1697062500) 5 "*")))
      [.object (serializeFields doc).values] := by
    rw [answer_asked]
    exact shown ▸ .cons (sample_givesBack doc) .nil
  obtain ⟨⟨table, accepted, isTable⟩, sources⟩ := offered_window_shown jsonText_faithful run true
    (.fromSecs 1697062500) params (by decide) rfl held built (answered _) parsed
    (sampleAnswer_answers doc) given sampleTimestampText (.ascending String) (.mergeSort String)
  rw [shown] at isTable sources
  exact ⟨s, doc, get, _, table, accepted, isTable, sources doc List.mem_cons_self⟩

end Yaffle.Server

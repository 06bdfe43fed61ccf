import Yaffle.Core.Decimal
import Yaffle.Search.Table

/-! The relative time window of a search: the parameters of the page, `perform_search`,
and the hits that the window lets through. -/
namespace Yaffle.Search
open Schema

def nanosPerSec : Nat := 1000000000

/-- `std::time::Duration`: up to `u64` seconds, to the nanosecond. -/
structure Duration where
  nanos : Nat
  bounded : nanos < UInt64.size * nanosPerSec

namespace Duration

theorem secs_bounded (secs : UInt64) : secs.toNat * nanosPerSec < UInt64.size * nanosPerSec :=
  Nat.mul_lt_mul_of_pos_right secs.toNat_lt_size (by decide)

def fromSecs (secs : UInt64) : Duration := ⟨secs.toNat * nanosPerSec, secs_bounded secs⟩

theorem fromSecs_nanos (secs : UInt64) : (fromSecs secs).nanos = secs.toNat * nanosPerSec := rfl

def asSecs (d : Duration) : UInt64 := UInt64.ofNat (d.nanos / nanosPerSec)

def checkedSub (d e : Duration) : Option Duration :=
  if e.nanos ≤ d.nanos then
    some ⟨d.nanos - e.nanos, Nat.lt_of_le_of_lt (Nat.sub_le _ _) d.bounded⟩
  else none

theorem asSecs_toNat (d : Duration) : d.asSecs.toNat = d.nanos / nanosPerSec :=
  UInt64.toNat_ofNat_of_lt' (Nat.div_lt_of_lt_mul (Nat.mul_comm _ _ ▸ d.bounded))

end Duration

/-- The choices of the page, in minutes. The labels of 180 and 720 name shorter windows. -/
def reltimes : List (UInt32 × String) :=
  [(0, "all"), (1, "1m"), (5, "5m"), (15, "15m"), (30, "30m"), (60, "1h"), (180, "2h"),
    (720, "8h"), (1440, "1d"), (2880, "2d"), (7200, "5d"), (10080, "7d"), (20160, "14d"),
    (43200, "30d")]

/-- The query string of the page, as far as it can be read. -/
structure SearchParams where
  reltime : Option UInt32
  q : Option String

/-- `params_signal` of `SearchPage`; an unreadable query string counts as an empty one. -/
def paramsSignal (maybeQstr : Option SearchParams) : UInt32 × String :=
  let p := maybeQstr.getD ⟨none, none⟩
  let q := if p.q = some "" then none else p.q
  (p.reltime.getD 5, q.getD "*")

/-- `*` on `u32`: an overflow panics in a build with overflow checks, and wraps otherwise. -/
def mulU32 (overflowChecks : Bool) (a b : UInt32) : Exec UInt32 :=
  if overflowChecks ∧ UInt32.size ≤ a.toNat * b.toNat then .error .arithmeticOverflow
  else .ok (a * b)

def startTimestamp (overflowChecks : Bool) (now : Duration) (reltime : UInt32) :
    Exec (Option UInt64) := do
  if reltime > 0 then
    let secs ← mulU32 overflowChecks reltime 60
    return (now.checkedSub (.fromSecs secs.toUInt64)).map Duration.asSecs
  else return none

inductive ServerFnError where
  | serverError (message : String)

/-- What is called through the trait `ServerAPI`. -/
abbrev ServerApi := SearchOptions → Fallible String Table

/-- The API is missing outside the server, and the clock is before the epoch when
`duration_since` fails. -/
def performSearch (overflowChecks : Bool) (serverApi : Option ServerApi) (clock : Option Duration)
    (reltime : UInt32) (query : String) : Fallible ServerFnError Table := do
  match serverApi with
  | none => throw (.serverError "Missing SharedServerAPI")
  | some api =>
    let now ← liftM (Exec.unwrap clock)
    let start ← liftM (startTimestamp overflowChecks now reltime)
    (api ⟨query, start, none⟩).adapt .serverError

/-- The search behind the page. -/
def searchRes (overflowChecks : Bool) (serverApi : Option ServerApi) (clock : Option Duration)
    (maybeQstr : Option SearchParams) : Fallible ServerFnError Table :=
  let value := paramsSignal maybeQstr
  performSearch overflowChecks serverApi clock value.1 value.2

/-- The search that `perform_search` calls has this start, whatever the API does. -/
def Passes (overflowChecks : Bool) (now : Duration) (reltime : UInt32) (start : Option UInt64) :
    Prop :=
  ∀ (api : ServerApi) (query : String),
    performSearch overflowChecks (some api) (some now) reltime query =
      (api ⟨query, start, none⟩).adapt .serverError

/-- The start of a window of so many seconds; a window that reaches back before the
epoch has none. -/
def windowStart (now : Duration) (secs : Nat) : Option Nat :=
  if now.nanos < secs * nanosPerSec then none else some (now.nanos / nanosPerSec - secs)

/-- The start of a window of so many minutes, without machine arithmetic. -/
def exactStart (now : Duration) (reltime : UInt32) : Option Nat :=
  if reltime = 0 then none else windowStart now (60 * reltime.toNat)

def PassesExact (overflowChecks : Bool) (now : Duration) (reltime : UInt32) : Prop :=
  ∃ start, Passes overflowChecks now reltime start ∧
    start.map UInt64.toNat = exactStart now reltime

/-- The product fits in 32 bits, or it wraps to more seconds than have passed. -/
def Computable (overflowChecks : Bool) (now : Duration) (reltime : UInt32) : Prop :=
  60 * reltime.toNat < 2 ^ 32 ∨
    overflowChecks = false ∧ now.nanos / nanosPerSec < 60 * reltime.toNat % 2 ^ 32

section Start
variable {overflowChecks : Bool} {now : Duration} {reltime : UInt32} {start : Option UInt64}

theorem performSearch_eq (api : ServerApi) (query : String) :
    performSearch overflowChecks (some api) (some now) reltime query =
      (liftM (startTimestamp overflowChecks now reltime) : Fallible ServerFnError _) >>=
        fun start => (api ⟨query, start, none⟩).adapt .serverError :=
  rfl

theorem performSearch_ok (computed : startTimestamp overflowChecks now reltime = .ok start)
    (api : ServerApi) (query : String) :
    performSearch overflowChecks (some api) (some now) reltime query =
      (api ⟨query, start, none⟩).adapt .serverError := by
  rw [performSearch_eq, computed]
  rfl

theorem performSearch_error {panic : Panic}
    (computed : startTimestamp overflowChecks now reltime = .error panic) (api : ServerApi)
    (query : String) :
    (performSearch overflowChecks (some api) (some now) reltime query).run = .error panic := by
  rw [performSearch_eq, computed]
  rfl

/-- An API that answers by the start it is given tells the starts apart. -/
theorem passes_iff :
    Passes overflowChecks now reltime start ↔
      startTimestamp overflowChecks now reltime = .ok start := by
  constructor
  · intro passes
    let api : ServerApi := fun sp =>
      if sp.start_timestamp = start then return ([], []) else throw "another start"
    have answer := passes api ""
    have expected : (api ⟨"", start, none⟩).adapt ServerFnError.serverError = pure ([], []) := by
      simp only [api, if_true]
      rfl
    rw [expected] at answer
    cases computed : startTimestamp overflowChecks now reltime with
    | error panic =>
      have failed := performSearch_error computed api ""
      rw [answer] at failed
      contradiction
    | ok other =>
      rw [performSearch_ok computed] at answer
      by_contra different
      have apart : other ≠ start := fun same => different (congrArg _ same)
      simp only [api, if_neg apart] at answer
      cases answer
  · intro computed api query
    exact performSearch_ok computed api query

theorem startTimestamp_zero : startTimestamp overflowChecks now 0 = .ok none := rfl

/-- What is subtracted from the current time, if there is no panic. -/
theorem startTimestamp_ok {secs : UInt32} (positive : reltime ≠ 0)
    (product : mulU32 overflowChecks reltime 60 = .ok secs) :
    startTimestamp overflowChecks now reltime =
      .ok ((now.checkedSub (.fromSecs secs.toUInt64)).map Duration.asSecs) := by
  rw [startTimestamp, if_pos (UInt32.pos_iff_ne_zero.mpr positive), product]
  rfl

theorem startTimestamp_error {panic : Panic} (positive : reltime ≠ 0)
    (product : mulU32 overflowChecks reltime 60 = .error panic) :
    startTimestamp overflowChecks now reltime = .error panic := by
  rw [startTimestamp, if_pos (UInt32.pos_iff_ne_zero.mpr positive), product]
  rfl

theorem map_asSecs_checkedSub (secs : UInt32) :
    ((now.checkedSub (.fromSecs secs.toUInt64)).map Duration.asSecs).map UInt64.toNat =
      windowStart now secs.toNat := by
  have size := Duration.fromSecs_nanos secs.toUInt64
  rw [UInt32.toNat_toUInt64] at size
  by_cases enough : secs.toNat * nanosPerSec ≤ now.nanos
  · rw [Duration.checkedSub, windowStart, if_pos (size ▸ enough), if_neg (Nat.not_lt.mpr enough),
      Option.map_some, Option.map_some, Duration.asSecs_toNat]
    simp only [size, Nat.mul_comm secs.toNat, Nat.sub_mul_div]
  · rw [Duration.checkedSub, windowStart, if_neg (size ▸ enough), if_pos (Nat.not_le.mp enough)]
    rfl

theorem toNat_mul_sixty : (reltime * 60).toNat = 60 * reltime.toNat % 2 ^ 32 := by
  rw [UInt32.toNat_mul, Nat.mul_comm]
  rfl

theorem mulU32_fits (fits : 60 * reltime.toNat < 2 ^ 32) :
    mulU32 overflowChecks reltime 60 = .ok (reltime * 60) := by
  apply if_neg
  rintro ⟨_, overflow⟩
  rw [Nat.mul_comm] at overflow
  exact absurd overflow (Nat.not_le.mpr fits)

theorem mulU32_wraps : mulU32 false reltime 60 = .ok (reltime * 60) := rfl

theorem mulU32_panics (overflow : ¬ 60 * reltime.toNat < 2 ^ 32) :
    mulU32 true reltime 60 = .error .arithmeticOverflow := by
  apply if_pos
  rw [Nat.mul_comm]
  exact ⟨rfl, Nat.not_lt.mp overflow⟩

theorem exactStart_of_ne (positive : reltime ≠ 0) :
    exactStart now reltime = windowStart now (60 * reltime.toNat) := if_neg positive

theorem passesExact_zero : PassesExact overflowChecks now 0 :=
  ⟨none, passes_iff.mpr startTimestamp_zero, rfl⟩

theorem passesExact_iff_of_product {secs : UInt32} (positive : reltime ≠ 0)
    (product : mulU32 overflowChecks reltime 60 = .ok secs) :
    PassesExact overflowChecks now reltime ↔
      windowStart now secs.toNat = windowStart now (60 * reltime.toNat) := by
  simp only [PassesExact, passes_iff, startTimestamp_ok positive product, Except.ok.injEq,
    exists_eq_left', map_asSecs_checkedSub, exactStart_of_ne positive]

theorem lt_secs_iff (secs : Nat) :
    now.nanos < secs * nanosPerSec ↔ now.nanos / nanosPerSec < secs :=
  (Nat.div_lt_iff_lt_mul (by decide)).symm

/-- Two windows have one start when both reach back before the epoch. -/
theorem windowStart_eq_iff {short long : Nat} (less : short < long) :
    windowStart now short = windowStart now long ↔ now.nanos / nanosPerSec < short := by
  simp only [windowStart, lt_secs_iff]
  split
  · rename_i before
    exact iff_of_true (if_pos (before.trans less)).symm before
  · rename_i after
    refine iff_of_false ?_ after
    split
    · rintro ⟨⟩
    · rw [Option.some.injEq]
      omega

theorem passesExact_iff :
    PassesExact overflowChecks now reltime ↔ Computable overflowChecks now reltime := by
  by_cases positive : reltime = 0
  · subst positive
    exact iff_of_true passesExact_zero (.inl (by decide))
  · by_cases fits : 60 * reltime.toNat < 2 ^ 32
    · rw [passesExact_iff_of_product positive (mulU32_fits fits), toNat_mul_sixty,
        Nat.mod_eq_of_lt fits]
      exact iff_of_true rfl (.inl fits)
    · rw [Computable, or_iff_right fits]
      cases overflowChecks with
      | true =>
        refine iff_of_false ?_ (fun wrapped => Bool.noConfusion wrapped.1)
        rintro ⟨start, passes, _⟩
        have computed := passes_iff.mp passes
        rw [startTimestamp_error positive (mulU32_panics fits)] at computed
        contradiction
      | false =>
        have wrapped := Nat.mod_lt (60 * reltime.toNat) (Nat.two_pow_pos 32)
        rw [passesExact_iff_of_product positive mulU32_wraps, toNat_mul_sixty,
          windowStart_eq_iff (wrapped.trans_le (Nat.not_lt.mp fits))]
        exact (and_iff_right rfl).symm

end Start

/-- The windows that the page offers are exact in every build and at every time. -/
theorem reltimes_exact (overflowChecks : Bool) (now : Duration) {entry : UInt32 × String}
    (offered : entry ∈ reltimes) : PassesExact overflowChecks now entry.1 := by
  have small : reltimes.all (fun entry => entry.1.toNat ≤ 43200) = true := by decide
  have bound := of_decide_eq_true (List.all_eq_true.mp small entry offered)
  rw [passesExact_iff]
  exact .inl (by omega)

/-- One start is not later than another; without a start the window is open. -/
def NotLater (first second : Option UInt64) : Prop := ∀ t ∈ first, ∃ u ∈ second, t ≤ u

/-- The second number of minutes asks for at least as much as the first. -/
def Wider (reltime wider : UInt32) : Prop := wider = 0 ∨ reltime ≠ 0 ∧ reltime ≤ wider

def usecPerSec : Nat := 1000000

/-- What `start_timestamp` and `end_timestamp` say of a time in microseconds. -/
def SearchOptions.admits (sp : SearchOptions) (usec : Nat) : Bool :=
  sp.start_timestamp.all (fun start => start.toNat * usecPerSec ≤ usec) &&
    sp.end_timestamp.all (fun stop => usec < stop.toNat * usecPerSec)

theorem admits_none (query : String) (usec : Nat) :
    (⟨query, none, none⟩ : SearchOptions).admits usec = true := rfl

theorem admits_some (query : String) (start : UInt64) (usec : Nat) :
    (⟨query, some start, none⟩ : SearchOptions).admits usec = true ↔
      start.toNat * usecPerSec ≤ usec := by
  rw [SearchOptions.admits, Option.all_some, Option.all_none, Bool.and_true, decide_eq_true_eq]

/-- The search endpoint of Quickwit as it is documented: it answers with the documents
that match the query and lie between the two timestamps, newest first, up to `max_hits`. -/
structure Endpoint (Hit : Type) where
  usec : Hit → Nat
  matching : String → List Hit
  newestFirst : ∀ query, (matching query).Pairwise fun a b => usec b ≤ usec a
  answer : List (String × String) → List Hit
  documented : ∀ sp,
    answer (queryPairs sp) = ((matching sp.query).filter fun hit => sp.admits (usec hit)).take 1000

/-- A number among the query pairs. -/
def readPair (pairs : List (String × String)) (name : String) : Option UInt64 :=
  (pairs.lookup name).bind Decimal.parseU64

theorem readPair_start (sp : SearchOptions) :
    readPair (queryPairs sp) "start_timestamp" = sp.start_timestamp := by
  obtain ⟨query, start, stop⟩ := sp
  cases start with
  | none => cases stop <;> rfl
  | some start => exact Decimal.parseU64_repr start

theorem readPair_end (sp : SearchOptions) :
    readPair (queryPairs sp) "end_timestamp" = sp.end_timestamp := by
  obtain ⟨query, start, stop⟩ := sp
  cases stop with
  | none => cases start <;> rfl
  | some stop => cases start <;> exact Decimal.parseU64_repr stop

theorem readPair_maxHits (sp : SearchOptions) :
    readPair (queryPairs sp) "max_hits" = some 1000 := Decimal.parseU64_repr 1000

/-- An index in which every document matches every query is such an endpoint. -/
def Endpoint.ofIndex {Hit : Type} (usec : Hit → Nat) (hits : List Hit)
    (newestFirst : hits.Pairwise fun a b => usec b ≤ usec a) : Endpoint Hit where
  usec := usec
  matching _ := hits
  newestFirst _ := newestFirst
  answer pairs :=
    let sp : SearchOptions :=
      ⟨"", readPair pairs "start_timestamp", readPair pairs "end_timestamp"⟩
    (hits.filter fun hit => sp.admits (usec hit)).take
      ((readPair pairs "max_hits").getD 20).toNat
  documented sp := by
    rw [readPair_start, readPair_end, readPair_maxHits]
    rfl

/-- In a list that descends, a weaker lower bound only adds to the end. -/
theorem filter_prefix_of_descending {f : α → Nat} {hits : List α}
    (descending : hits.Pairwise fun a b => f b ≤ f a) {p q : α → Bool}
    (closed : ∀ a b, f a ≤ f b → p a = true → p b = true) (weaker : ∀ a, p a = true → q a = true) :
    hits.filter p <+: hits.filter q := by
  induction descending with
  | nil => exact List.prefix_rfl
  | @cons first rest before _ ih =>
    by_cases kept : p first = true
    · rw [List.filter_cons_of_pos kept, List.filter_cons_of_pos (weaker first kept)]
      exact (List.prefix_cons_inj first).mpr ih
    · have none : (first :: rest).filter p = [] := by
        rw [List.filter_eq_nil_iff]
        intro hit member inside
        rcases List.mem_cons.mp member with rfl | later
        · exact kept inside
        · exact kept (closed hit first (before hit later) inside)
      rw [none]
      exact List.nil_prefix

theorem prefix_take (n : Nat) {xs ys : List α} (inside : xs <+: ys) : xs.take n <+: ys.take n := by
  obtain ⟨rest, rfl⟩ := inside
  rw [List.take_append]
  exact List.prefix_append _ _

/-- With a start that is not later, an endpoint shows the same hits and maybe more. -/
theorem Endpoint.answer_prefix {Hit : Type} (endpoint : Endpoint Hit) (query : String)
    {start start' : Option UInt64} (notLater : NotLater start' start) :
    endpoint.answer (queryPairs ⟨query, start, none⟩) <+:
      endpoint.answer (queryPairs ⟨query, start', none⟩) := by
  rw [endpoint.documented, endpoint.documented]
  apply prefix_take
  apply filter_prefix_of_descending (endpoint.newestFirst query)
  · intro a b older admitted
    cases start with
    | none => exact admits_none query _
    | some s =>
      rw [admits_some] at admitted ⊢
      exact admitted.trans older
  · intro a admitted
    cases start' with
    | none => exact admits_none query _
    | some t =>
      obtain ⟨u, rfl, less⟩ := notLater t rfl
      rw [admits_some] at admitted ⊢
      exact (Nat.mul_le_mul_right _ (UInt64.le_iff_toNat_le.mp less)).trans admitted

theorem windowStart_antitone {now : Duration} {short long : Nat} (less : short ≤ long) {t : Nat}
    (start : windowStart now long = some t) : ∃ u, windowStart now short = some u ∧ t ≤ u := by
  simp only [windowStart, lt_secs_iff] at start ⊢
  split at start
  · contradiction
  · rename_i after
    rw [Option.some.injEq] at start
    refine ⟨_, if_neg (by omega), ?_⟩
    omega

section Windows
variable {overflowChecks : Bool} {now : Duration} {reltime wider : UInt32}

/-- Where the start is exact, the one start that is passed is the exact one. -/
theorem start_of_computable {start : Option UInt64}
    (computable : Computable overflowChecks now reltime)
    (passes : Passes overflowChecks now reltime start) :
    start.map UInt64.toNat = exactStart now reltime := by
  obtain ⟨other, passes', exact'⟩ := passesExact_iff.mpr computable
  cases (passes_iff.mp passes).symm.trans (passes_iff.mp passes')
  exact exact'

theorem notLater_of_wider (computable : Computable overflowChecks now reltime)
    (computable' : Computable overflowChecks now wider) (wide : Wider reltime wider)
    {start start' : Option UInt64} (passes : Passes overflowChecks now reltime start)
    (passes' : Passes overflowChecks now wider start') : NotLater start' start := by
  have first := start_of_computable computable passes
  have second := start_of_computable computable' passes'
  rintro t rfl
  rcases wide with rfl | ⟨positive, less⟩
  · contradiction
  · have positive' : wider ≠ 0 := by
      rintro rfl
      exact positive (UInt32.le_zero_iff.mp less)
    rw [exactStart_of_ne positive'] at second
    obtain ⟨u, found, order⟩ := windowStart_antitone
      (Nat.mul_le_mul_left 60 (UInt32.le_iff_toNat_le.mp less)) second.symm
    rw [exactStart_of_ne positive, found] at first
    obtain ⟨s, rfl, rfl⟩ := Option.map_eq_some_iff.mp first
    exact ⟨s, rfl, UInt64.le_iff_toNat_le.mpr order⟩

end Windows

/-- For every number of minutes and every current time: the start that is passed is the
exact one just when the product fits in 32 bits or wraps to more than the time since the
epoch. Among such windows a wider one starts no later and shows every hit of the others. -/
theorem window_exact_iff (overflowChecks : Bool) (now : Duration) (reltime : UInt32) :
    (PassesExact overflowChecks now reltime ↔ Computable overflowChecks now reltime) ∧
      ∀ wider, Computable overflowChecks now reltime → Computable overflowChecks now wider →
        Wider reltime wider → ∀ start start', Passes overflowChecks now reltime start →
          Passes overflowChecks now wider start' → NotLater start' start ∧
            ∀ (Hit : Type) (endpoint : Endpoint Hit) (query : String),
              endpoint.answer (queryPairs ⟨query, start, none⟩) <+:
                endpoint.answer (queryPairs ⟨query, start', none⟩) := by
  refine ⟨passesExact_iff, ?_⟩
  intro wider computable computable' wide start start' passes passes'
  have notLater := notLater_of_wider computable computable' wide passes passes'
  exact ⟨notLater, fun _ endpoint query => endpoint.answer_prefix query notLater⟩

def sampleNow : Duration := .fromSecs 1700000000

/-- One document, written fifty seconds before. -/
def sampleEndpoint : Endpoint Nat := .ofIndex id [1699999950000000] (List.pairwise_singleton _ _)

/-- So many minutes reach back before the epoch, but wrap to 44 seconds. The search then
starts later than one of a minute and hides a document that is shown for a minute. With
overflow checks there is a panic. -/
theorem long_window_starts_late :
    exactStart sampleNow 71582789 = none ∧ ¬ PassesExact false sampleNow 71582789 ∧
      Passes false sampleNow 71582789 (some 1699999956) ∧
      Passes false sampleNow 1 (some 1699999940) ∧
      sampleEndpoint.answer (queryPairs ⟨"*", some 1699999956, none⟩) = [] ∧
      sampleEndpoint.answer (queryPairs ⟨"*", some 1699999940, none⟩) = [1699999950000000] ∧
      startTimestamp true sampleNow 71582789 = .error .arithmeticOverflow := by
  have late : Passes false sampleNow 71582789 (some 1699999956) := passes_iff.mpr rfl
  have minute : Passes false sampleNow 1 (some 1699999940) := passes_iff.mpr rfl
  have absent : exactStart sampleNow 71582789 = none := by
    rw [exactStart_of_ne (by decide)]
    exact if_pos (by decide)
  refine ⟨absent, ?_, late, minute, ?_, ?_, rfl⟩
  · rw [passesExact_iff]
    rintro (fits | ⟨_, wrapped⟩)
    · exact absurd fits (by decide)
    · exact absurd wrapped (by decide)
  · have hidden : ¬ (⟨"*", some 1699999956, none⟩ : SearchOptions).admits 1699999950000000 := by
      rw [admits_some]
      decide
    rw [sampleEndpoint.documented]
    exact congrArg (List.take 1000) (List.filter_cons_of_neg hidden)
  · have shown : (⟨"*", some 1699999940, none⟩ : SearchOptions).admits 1699999950000000 := by
      rw [admits_some]
      decide
    rw [sampleEndpoint.documented]
    exact congrArg (List.take 1000) (List.filter_cons_of_pos shown)

end Yaffle.Search

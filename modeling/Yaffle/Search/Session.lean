import Yaffle.Search.Page

/-! A session on the page: columns are switched on and off and the page is loaded again,
in any order. What is shown depends on the switches alone. -/
namespace Yaffle.Search
open Schema Text Transition

/-- The `on:input` handler of a checkbox, with the value and the state in its event. -/
def onInput (colsEnabled : Finset String) (val : String) (checked : Bool) : Finset String :=
  if checked ≠ decide (val ∈ colsEnabled) then
    if checked then insert val colsEnabled else colsEnabled.erase val
  else colsEnabled

inductive SessionEvent where
  | input (val : String) (checked : Bool)
  | reload (load : Load)

/-- The checkboxes of the page are those of fields. -/
inductive SessionStep (parseEncoded : String → Option Cookie) (order : HashOrder String) :
    Finset String → SessionEvent → Finset String → Prop
  | input {cols : Finset String} {val : String} {checked : Bool}
      (known : val ∈ schema.map Field.name) :
      SessionStep parseEncoded order cols (.input val checked) (onInput cols val checked)
  | reload {cols next : Finset String} {load : Load}
      (loaded : Reload parseEncoded order cols load next) :
      SessionStep parseEncoded order cols (.reload load) next

/-- What one switch asks for. -/
def SessionEvent.apply (cols : Finset String) : SessionEvent → Finset String
  | input val checked => if checked then insert val cols else cols.erase val
  | reload _ => cols

/-- What the switches of a session ask for. -/
def chosen (cols : Finset String) (events : List SessionEvent) : Finset String :=
  events.foldl SessionEvent.apply cols

/-- The selection is the one asked for, maybe with a column without a name. -/
def Agrees (cols asked : Finset String) : Prop := cols = asked ∨ cols = insert "" asked

section Names

/-- A name that stands in a cookie as it is, also where a version of the crate strips
quotes. -/
def IsClean (stripsQuotes : Bool) (name : String) : Prop :=
  IsPlain name ∧ (stripsQuotes = true → '"' ∉ name.toList)

theorem names_clean : ∀ name ∈ schema.map Field.name,
    IsPlain name ∧ '"' ∉ name.toList ∧ name ≠ "" := by
  have all : (schema.map Field.name).all fun name =>
      decide (IsPlain name ∧ '"' ∉ name.toList ∧ name ≠ "") := by
    decide +kernel
  intro name member
  exact of_decide_eq_true (List.all_eq_true.mp all name member)

/-- Names without quotes are no value in quotes. -/
theorem readsWhole_of_clean {stripsQuotes : Bool} {order : HashOrder String} {n : Nat}
    {cols : Finset String} (clean : ∀ name ∈ cols, IsClean stripsQuotes name) :
    ReadsWhole stripsQuotes (cookieList order n cols) := by
  intro strips
  by_contra found
  obtain ⟨inner, found⟩ := Option.ne_none_iff_exists'.mp found
  have quote : '"' ∈ (cookieList order n cols).toList := by
    rw [quoted_some found]
    exact List.mem_cons_self
  rw [cookieList, String.toList_intercalate] at quote
  rcases mem_intercalate quote with comma | ⟨piece, inside, within⟩
  · exact absurd comma (by decide)
  · obtain ⟨name, listed, rfl⟩ := List.mem_map.mp inside
    exact (clean name ((order.mem_iter n cols name).mp listed)).2 strips within

end Names

section Step
variable {stripsQuotes : Bool} {parseEncoded : String → Option Cookie} {order : HashOrder String}
  {cols next asked : Finset String} {e : SessionEvent}

theorem onInput_eq (cols : Finset String) (val : String) (checked : Bool) :
    onInput cols val checked = SessionEvent.apply cols (.input val checked) := by
  unfold onInput SessionEvent.apply
  by_cases enabled : val ∈ cols <;> cases checked <;> simp [enabled]

theorem agrees_apply {val : String} (named : val ≠ "") (checked : Bool)
    (agrees : Agrees cols asked) :
    Agrees (SessionEvent.apply cols (.input val checked))
      (SessionEvent.apply asked (.input val checked)) := by
  rcases agrees with rfl | rfl
  · exact .inl rfl
  · right
    cases checked with
    | true => exact Finset.insert_comm _ _ _
    | false => exact Finset.erase_insert_of_ne named.symm

theorem clean_apply {val : String} (known : IsClean stripsQuotes val) (checked : Bool)
    (clean : ∀ name ∈ cols, IsClean stripsQuotes name) :
    ∀ name ∈ SessionEvent.apply cols (.input val checked), IsClean stripsQuotes name := by
  intro name member
  cases checked with
  | true =>
    rcases Finset.mem_insert.mp member with rfl | earlier
    · exact known
    · exact clean name earlier
  | false => exact clean name (Finset.mem_of_mem_erase member)

/-- A reload keeps every selection but the empty one, which gains the column without a
name. -/
theorem reload_cases (documented : ParsesPlain stripsQuotes parseEncoded) {load : Load}
    (clean : ∀ name ∈ cols, IsClean stripsQuotes name)
    (loaded : Reload parseEncoded order cols load next) :
    next = cols ∨ cols = ∅ ∧ next = {""} := by
  by_cases empty : cols = ∅
  · subst empty
    obtain ⟨carries, rfl⟩ := loaded
    exact .inr ⟨rfl, colsEnabled_of_empty documented carries⟩
  · have plain : ∀ name ∈ cols, IsPlain name := fun name member => (clean name member).1
    exact .inl (reload_eq documented plain empty (readsWhole_of_clean clean) loaded)

theorem session_step (documented : ParsesPlain stripsQuotes parseEncoded)
    (step : SessionStep parseEncoded order cols e next)
    (clean : ∀ name ∈ cols, IsClean stripsQuotes name) (agrees : Agrees cols asked) :
    Agrees next (e.apply asked) ∧ ∀ name ∈ next, IsClean stripsQuotes name := by
  cases step with
  | input known =>
    obtain ⟨plain, noQuote, named⟩ := names_clean _ known
    rw [onInput_eq]
    exact ⟨agrees_apply named _ agrees, clean_apply ⟨plain, fun _ => noQuote⟩ _ clean⟩
  | reload loaded =>
    rcases reload_cases documented clean loaded with rfl | ⟨rfl, rfl⟩
    · exact ⟨agrees, clean⟩
    · obtain rfl : asked = ∅ := by
        rcases agrees with same | same
        · exact same.symm
        · exact absurd same.symm (Finset.insert_ne_empty _ _)
      refine ⟨.inr rfl, ?_⟩
      intro name member
      rw [Finset.mem_singleton.mp member]
      exact ⟨by decide, fun _ => by decide⟩

theorem session_run (documented : ParsesPlain stripsQuotes parseEncoded)
    {events : List SessionEvent} (run : Reaches (SessionStep parseEncoded order) cols events next)
    (clean : ∀ name ∈ cols, IsClean stripsQuotes name) (agrees : Agrees cols asked) :
    Agrees next (chosen asked events) := by
  induction run generalizing asked with
  | refl => exact agrees
  | next step _ ih =>
    obtain ⟨agrees, clean⟩ := session_step documented step clean agrees
    exact ih clean agrees

end Step

/-- The page looks only at which of its fields are enabled. -/
theorem searchView_congr {cols other : Finset String} {table : Table}
    (same : ∀ field ∈ table.1, (field ∈ cols ↔ field ∈ other)) :
    searchView cols table = searchView other table := by
  have boxes : checkboxes cols table.1 = checkboxes other table.1 := by
    refine List.filterMap_congr fun field member => ?_
    simp only [same field member]
  have headings : header cols table.1 = header other table.1 := by
    refine List.filterMap_congr fun field member => ?_
    simp only [same field member]
  have cells (row : List (Option String)) :
      bodyCells cols table.1 row = bodyCells other table.1 row := by
    refine List.filterMap_congr fun entry member => ?_
    have field : entry.1 ∈ table.1 := List.fst_mem_of_mem_zipIdx member
    simp only [same entry.1 field]
  simp only [searchView, boxes, headings, cells]

/-- After any session, the selection is the one that the switches ask for, except that it
may have a column without a name, and every search shows what it shows for that one. -/
theorem session_shows_chosen {stripsQuotes : Bool} {parseEncoded : String → Option Cookie}
    (documented : ParsesPlain stripsQuotes parseEncoded) {order : HashOrder String}
    {first last : Finset String} (clean : ∀ name ∈ first, IsClean stripsQuotes name)
    {events : List SessionEvent}
    (run : Reaches (SessionStep parseEncoded order) first events last) :
    Agrees last (chosen first events) ∧
      ∀ (timestampText : TimestampText) (order : HashOrder String) (sorter : SliceSort String)
        (hits : List Document), searchView last (resultTable timestampText order sorter hits) =
          searchView (chosen first events) (resultTable timestampText order sorter hits) := by
  have agrees := session_run documented run clean (.inl rfl)
  refine ⟨agrees, ?_⟩
  intro timestampText order sorter hits
  rcases agrees with same | same
  · rw [same]
  · rw [same]
    refine searchView_congr fun name column => ?_
    obtain ⟨field, position, rfl⟩ :=
      known_columns (resultTable_isTable timestampText order sorter hits) name column
    have named := (names_clean _ (List.mem_map_of_mem position.mem)).2.2
    rw [Finset.mem_insert, or_iff_right named]

/-- The header of a browser with no other cookie. -/
def onlyCookie (cookie : String) : List String :=
  [";".intercalate ([] ++ ("" ++ cookie ++ "") :: [])]

theorem onlyCookie_carries {cols : Finset String} (plain : ∀ name ∈ cols, IsPlain name) (n : Nat) :
    Carries parsePlain (onlyCookie (colsCookie (.ascending String) n cols))
      (colsCookie (.ascending String) n cols) := by
  apply carries_header isBlank_empty isBlank_empty
  · intro segment member
    rw [List.nil_append, List.mem_singleton] at member
    rw [member, String.empty_append, String.append_empty]
    exact colsCookie_whole plain
  · intro other member
    contradiction

/-- Both columns are switched off, the page is loaded again, and one is switched on. -/
def sampleSession : List SessionEvent :=
  [.input "comm" false, .input "pid" false,
    .reload ⟨0, onlyCookie (colsCookie (.ascending String) 0 ∅)⟩, .input "pid" true]

theorem sampleCols_clean : ∀ name ∈ sampleCols, IsClean true name := by
  intro name member
  refine ⟨sampleCols_plain name member, fun _ => ?_⟩
  rw [sampleCols, Finset.mem_insert, Finset.mem_singleton] at member
  rcases member with rfl | rfl <;> decide

theorem sampleSession_run : Reaches (SessionStep parsePlain (.ascending String)) sampleCols
    sampleSession {"", "pid"} := by
  have plain : ∀ name ∈ (∅ : Finset String), IsPlain name := by simp
  have carries := onlyCookie_carries plain 0
  have known (name : String) (listed : name ∈ ["comm", "pid"]) : name ∈ schema.map Field.name := by
    have columns : ["comm", "pid"].all fun name => decide (name ∈ schema.map Field.name) := by
      decide +kernel
    exact of_decide_eq_true (List.all_eq_true.mp columns name listed)
  have emptied : onInput (onInput sampleCols "comm" false) "pid" false = ∅ := by decide
  have gained := colsEnabled_of_empty parsesPlain_parsePlain carries
  have switched : onInput (appStateFromCookies parsePlain
      (onlyCookie (colsCookie (.ascending String) 0 ∅))).colsEnabled "pid" true = {"", "pid"} := by
    rw [gained]
    decide
  rw [← switched]
  refine .next (.input (known "comm" (by simp))) (.next (.input (known "pid" (by simp)))
    (.next (.reload ⟨?_, rfl⟩) (.one (.input (known "pid" (by simp))))))
  rw [emptied]
  exact carries

theorem session_shows_chosen_sample : Agrees {"", "pid"} (chosen sampleCols sampleSession) ∧
    searchView {"", "pid"} (resultTable (fun _ _ => none) (.ascending String)
        (.mergeSort String) sampleHits) =
      searchView (chosen sampleCols sampleSession) (resultTable (fun _ _ => none)
        (.ascending String) (.mergeSort String) sampleHits) := by
  obtain ⟨agrees, shown⟩ :=
    session_shows_chosen parsesPlain_parsePlain sampleCols_clean sampleSession_run
  exact ⟨agrees, shown _ _ _ _⟩

end Yaffle.Search

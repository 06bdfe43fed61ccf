import Mathlib.Algebra.BigOperators.Group.Finset.Basic
import Mathlib.Algebra.Order.BigOperators.Group.List
import Mathlib.Data.Finset.Dedup
import Mathlib.Data.String.Basic
import Yaffle.Core.Collections
import Yaffle.Core.Text
import Yaffle.Core.Transition
import Yaffle.Schema.Convert

/-! The cookie with the enabled columns: how the page writes it, and how the state of
the page is read from the headers of a request. -/
namespace Yaffle.Search
open Schema Text Transition

structure Cookie where
  name : String
  value : String

structure AppState where
  colsEnabled : Finset String

def defaultColsEnabled : List String := ["source_timestamp", "comm", "hostname", "priority"]

def AppState.default : AppState := ⟨defaultColsEnabled.toFinset⟩

/-- Cookies that `Cookie::parse_encoded` rejects are skipped. -/
def appStateFromCookies (parseEncoded : String → Option Cookie) (headers : List String) :
    AppState :=
  let cookies := (headers.flatMap fun val => split val ';').filterMap parseEncoded
  match cookies.find? fun cookie => cookie.name = "cols" with
  | some cookie => ⟨(split cookie.value ',').toFinset⟩
  | none => .default

/-- The columns in the order in which the set is iterated. -/
def cookieList (order : HashOrder String) (n : Nat) (cols : Finset String) : String :=
  ",".intercalate (order.iter n cols)

/-- The cookie that the effect of `SearchPage` writes. -/
def colsCookie (order : HashOrder String) (n : Nat) (cols : Finset String) : String :=
  "cols=" ++ cookieList order n cols

/-- Blanks are what `str::trim` takes away. -/
def IsBlank (s : String) : Prop := ∀ c ∈ s.toList, isWhitespace c = true

/-- The name of a column that stands in a cookie as it is. -/
def IsPlain (name : String) : Prop :=
  ∀ c ∈ name.toList, c ∉ [',', ';', '%'] ∧ isWhitespace c = false

instance (name : String) : Decidable (IsPlain name) := List.decidableBAll _ name.toList

/-- The text inside of a pair of double quotes, if there is one around the whole. -/
def quoted (s : String) : Option String :=
  match s.toList with
  | '"' :: rest => if rest.getLast? = some '"' then some (String.ofList rest.dropLast) else none
  | _ => none

/-- What is documented of `Cookie::parse_encoded` for a text without attributes: the name
ends at the first equals sign, blanks around name and value are trimmed, and decoding
changes nothing where there is no percent sign. Some versions strip one pair of double
quotes around the value. -/
structure ParsesPlain (stripsQuotes : Bool) (parseEncoded : String → Option Cookie) : Prop where
  plain : ∀ name value : String, '=' ∉ name.toList →
    (∀ c ∈ name.toList ++ value.toList, c ∉ [';', '%']) → trim name ≠ "" →
      parseEncoded (name ++ "=" ++ value) = some ⟨trim name,
        if stripsQuotes then (quoted (trim value)).getD (trim value) else trim value⟩

/-- A value that is read as it was written. -/
def ReadsWhole (stripsQuotes : Bool) (value : String) : Prop :=
  stripsQuotes = true → quoted value = none

/-- A request for the page: the number of the iteration that its cookie was written from,
and its headers. -/
structure Load where
  written : Nat
  headers : List String

/-- The cookie stands in one of the headers, maybe with blanks around it, and the other
cookies are not named like it. -/
def Carries (parseEncoded : String → Option Cookie) (headers : List String) (cookie : String) :
    Prop :=
  ∃ before left right after, IsBlank left ∧ IsBlank right ∧
    (headers.flatMap fun val => split val ';') = before ++ (left ++ cookie ++ right) :: after ∧
    ∀ other ∈ before ++ after, ∀ parsed, parseEncoded other = some parsed → parsed.name ≠ "cols"

/-- A reload: the page has written its cookie, and the next request carries it. -/
def Reload (parseEncoded : String → Option Cookie) (order : HashOrder String)
    (cols : Finset String) (load : Load) (next : Finset String) : Prop :=
  Carries parseEncoded load.headers (colsCookie order load.written cols) ∧
    next = (appStateFromCookies parseEncoded load.headers).colsEnabled

theorem trim_blanks {left inner right : String} (before : IsBlank left)
    (visible : ∀ c ∈ inner.toList, isWhitespace c = false) (after : IsBlank right) :
    trim (left ++ inner ++ right) = inner := by
  rw [trim, String.toList_append, String.toList_append, List.append_assoc,
    rdropWhile_dropWhile_of_none before visible after, String.ofList_toList]

theorem isBlank_empty : IsBlank "" := by
  intro c member
  contradiction

theorem trim_blanks_left {left inner : String} (before : IsBlank left)
    (visible : ∀ c ∈ inner.toList, isWhitespace c = false) : trim (left ++ inner) = inner := by
  have both := trim_blanks before visible isBlank_empty
  rwa [String.append_empty] at both

theorem trim_blanks_right {inner right : String}
    (visible : ∀ c ∈ inner.toList, isWhitespace c = false) (after : IsBlank right) :
    trim (inner ++ right) = inner := by
  have both := trim_blanks isBlank_empty visible after
  rwa [String.empty_append] at both

/-- No blank is a separator. -/
theorem IsBlank.separators {s : String} (blank : IsBlank s) :
    ∀ c ∈ s.toList, c ∉ ['=', ';', '%'] := by
  intro c member separator
  have space := blank c member
  simp only [List.mem_cons, List.not_mem_nil, or_false] at separator
  rcases separator with rfl | rfl | rfl <;> contradiction

section Written
variable {order : HashOrder String} {n : Nat} {cols : Finset String}
  (plain : ∀ name ∈ cols, IsPlain name)
include plain

/-- Between the names of a list there are only commas. -/
theorem cookieList_chars :
    ∀ c ∈ (cookieList order n cols).toList, c ∉ [';', '%'] ∧ isWhitespace c = false := by
  intro c member
  rw [cookieList, String.toList_intercalate] at member
  rcases mem_intercalate member with rfl | ⟨piece, inside, found⟩
  · exact ⟨by decide, by decide⟩
  · obtain ⟨name, listed, rfl⟩ := List.mem_map.mp inside
    obtain ⟨clean, visible⟩ := plain name ((order.mem_iter n cols name).mp listed) c found
    exact ⟨fun separator => clean (List.mem_cons_of_mem _ separator), visible⟩

theorem colsCookie_whole : ';' ∉ (colsCookie order n cols).toList := by
  rw [colsCookie, String.toList_append, List.mem_append]
  rintro (letter | inside)
  · exact absurd letter (by decide)
  · exact (cookieList_chars plain _ inside).1 (by decide)

/-- What the server splits is the list of the names that were joined. -/
theorem split_cookieList (nonempty : cols ≠ ∅) :
    split (cookieList order n cols) ',' = order.iter n cols := by
  apply split_intercalate
  · intro empty
    obtain ⟨name, member⟩ := Finset.nonempty_iff_ne_empty.mpr nonempty
    rw [← order.mem_iter n, empty] at member
    contradiction
  · intro name listed comma
    exact (plain name ((order.mem_iter n cols name).mp listed) ',' comma).1 (by decide)

omit plain in
/-- With its blanks the cookie is still a name and a value to the parser. -/
theorem colsCookie_text (left right : String) :
    left ++ colsCookie order n cols ++ right =
      left ++ "cols" ++ "=" ++ (cookieList order n cols ++ right) := by
  have pair : "cols=" = "cols" ++ "=" := rfl
  simp only [colsCookie, pair, String.append_assoc]

theorem colsCookie_clean {left right : String} (before : IsBlank left) (after : IsBlank right) :
    ∀ c ∈ (left ++ "cols").toList ++ (cookieList order n cols ++ right).toList,
      c ∉ [';', '%'] := by
  have letters : IsPlain "cols" := by decide
  intro c member
  rw [String.toList_append, String.toList_append, List.mem_append, List.mem_append,
    List.mem_append] at member
  rcases member with (blank | letter) | (inside | blank)
  · exact fun separator => before.separators c blank (List.mem_cons_of_mem _ separator)
  · exact fun separator => (letters c letter).1 (List.mem_cons_of_mem _ separator)
  · exact (cookieList_chars plain c inside).1
  · exact fun separator => after.separators c blank (List.mem_cons_of_mem _ separator)

theorem parse_colsCookie {stripsQuotes : Bool} {parseEncoded : String → Option Cookie}
    (documented : ParsesPlain stripsQuotes parseEncoded) {left right : String}
    (before : IsBlank left) (after : IsBlank right) :
    parseEncoded (left ++ colsCookie order n cols ++ right) = some ⟨"cols",
      if stripsQuotes then (quoted (cookieList order n cols)).getD (cookieList order n cols)
      else cookieList order n cols⟩ := by
  have letters : IsPlain "cols" := by decide
  have name := trim_blanks_left before fun c member => (letters c member).2
  have value : trim (cookieList order n cols ++ right) = cookieList order n cols :=
    trim_blanks_right (fun c member => (cookieList_chars plain c member).2) after
  have noEquals : '=' ∉ (left ++ "cols").toList := by
    rw [String.toList_append, List.mem_append]
    rintro (blank | letter)
    · exact before.separators _ blank (by decide)
    · exact absurd letter (by decide)
  have named : trim (left ++ "cols") ≠ "" := by
    rw [name]
    decide
  rw [colsCookie_text, documented.plain _ _ noEquals (colsCookie_clean plain before after) named,
    name, value]

end Written

/-- What a carried cookie leaves, if it is read as this value. -/
theorem appStateFromCookies_of_carries {parseEncoded : String → Option Cookie}
    {headers : List String} {cookie value : String}
    (reads : ∀ {left right}, IsBlank left → IsBlank right →
      parseEncoded (left ++ cookie ++ right) = some ⟨"cols", value⟩)
    (carries : Carries parseEncoded headers cookie) :
    (appStateFromCookies parseEncoded headers).colsEnabled = (split value ',').toFinset := by
  obtain ⟨before, left, right, after, blank, blank', segments, others⟩ := carries
  have skipped : (before.filterMap parseEncoded).find? (fun cookie => cookie.name = "cols") =
      none := by
    rw [List.find?_eq_none]
    intro parsed member
    obtain ⟨other, inside, parses⟩ := List.mem_filterMap.mp member
    rw [decide_eq_true_eq]
    exact others other (List.mem_append_left _ inside) parsed parses
  rw [appStateFromCookies, segments, List.filterMap_append,
    List.filterMap_cons_some (reads blank blank'), List.find?_append, skipped, Option.none_or,
    List.find?_cons_of_pos (by rfl)]

section Size

/-- The characters of all names together. -/
def size (cols : Finset String) : Nat := cols.sum String.length

theorem size_toFinset_le (names : List String) :
    size names.toFinset ≤ (names.map String.length).sum := by
  have same : names.toFinset = names.dedup.toFinset := by
    ext name
    simp
  rw [size, same, List.sum_toFinset _ names.nodup_dedup]
  exact (names.dedup_sublist.map _).sum_le_sum fun _ _ => Nat.zero_le _

theorem size_eq_sum (order : HashOrder String) (n : Nat) (cols : Finset String) :
    size cols = ((order.iter n cols).map String.length).sum := by
  have same : cols = (order.iter n cols).toFinset := by
    ext name
    rw [List.mem_toFinset, order.mem_iter]
  rw [size, ← List.sum_toFinset _ (order.nodup n cols), ← same]

theorem sum_length_split (s : String) (c : Char) :
    ((split s c).map String.length).sum = (s.toList.filter (· ≠ c)).length := by
  rw [← flatten_splitOn, List.length_flatten, split, List.map_map]
  exact congrArg List.sum (List.map_congr_left fun piece _ => by simp)

/-- What the server splits of a text has no more characters than the text without commas. -/
theorem size_split_le (s : String) :
    size (split s ',').toFinset ≤ (s.toList.filter (· ≠ ',')).length :=
  (size_toFinset_le _).trans (sum_length_split s ',').le

theorem quoted_some {s inner : String} (found : quoted s = some inner) :
    s.toList = '"' :: (inner.toList ++ ['"']) := by
  unfold quoted at found
  split at found
  · rename_i rest shape
    split at found
    · rename_i last
      cases found
      rw [shape, String.toList_ofList, List.dropLast_append_getLast? _ last]
    · contradiction
  · contradiction

end Size

section Reload
variable {stripsQuotes : Bool} {parseEncoded : String → Option Cookie}
  (documented : ParsesPlain stripsQuotes parseEncoded) {order : HashOrder String} {n : Nat}
  {headers : List String}
include documented

/-- A selection that is not empty is read back from a value that is read as it was written. -/
theorem colsEnabled_of_nonempty {cols : Finset String} (plain : ∀ name ∈ cols, IsPlain name)
    (nonempty : cols ≠ ∅) (whole : ReadsWhole stripsQuotes (cookieList order n cols))
    (carries : Carries parseEncoded headers (colsCookie order n cols)) :
    (appStateFromCookies parseEncoded headers).colsEnabled = cols := by
  have value : (if stripsQuotes then
      (quoted (cookieList order n cols)).getD (cookieList order n cols)
      else cookieList order n cols) = cookieList order n cols := by
    cases stripsQuotes with
    | true => rw [if_pos rfl, whole rfl, Option.getD_none]
    | false => rfl
  rw [appStateFromCookies_of_carries (parse_colsCookie plain documented) carries, value,
    split_cookieList plain nonempty]
  ext name
  rw [List.mem_toFinset, order.mem_iter]

/-- The empty selection is written as an empty value, which is split into one empty name. -/
theorem colsEnabled_of_empty (carries : Carries parseEncoded headers (colsCookie order n ∅)) :
    (appStateFromCookies parseEncoded headers).colsEnabled = {""} := by
  have noPlain : ∀ name ∈ (∅ : Finset String), IsPlain name := by
    intro name member
    exact absurd member (Finset.notMem_empty name)
  rw [appStateFromCookies_of_carries (parse_colsCookie noPlain documented) carries, cookieList,
    order.iter_empty, String.intercalate_nil]
  cases stripsQuotes <;> rfl

/-- Of a value in double quotes the quotes are lost, and with them two characters. -/
theorem colsEnabled_of_quoted {cols : Finset String} (plain : ∀ name ∈ cols, IsPlain name)
    (nonempty : cols ≠ ∅) (stripped : ¬ ReadsWhole stripsQuotes (cookieList order n cols))
    (carries : Carries parseEncoded headers (colsCookie order n cols)) :
    size (appStateFromCookies parseEncoded headers).colsEnabled < size cols ∧
      ∀ name ∈ (appStateFromCookies parseEncoded headers).colsEnabled, IsPlain name := by
  obtain ⟨rfl, found⟩ : stripsQuotes = true ∧ ∃ inner, quoted (cookieList order n cols) =
      some inner := by
    simpa [ReadsWhole, Option.ne_none_iff_exists'] using stripped
  obtain ⟨inner, found⟩ := found
  have shape := quoted_some found
  rw [appStateFromCookies_of_carries (parse_colsCookie plain documented) carries, if_pos rfl,
    found, Option.getD_some]
  constructor
  · refine (size_split_le inner).trans_lt ?_
    rw [size_eq_sum order n, ← split_cookieList plain nonempty, sum_length_split, shape,
      List.filter_cons_of_pos (by decide), List.filter_append, List.length_cons,
      List.length_append]
    omega
  · intro name member c inside
    obtain ⟨piece, listed, rfl⟩ := List.mem_map.mp (List.mem_toFinset.mp member)
    rw [String.toList_ofList] at inside
    have kept : c ∈ inner.toList.filter (· ≠ ',') := by
      rw [← flatten_splitOn]
      exact List.mem_flatten_of_mem listed inside
    obtain ⟨known, noComma⟩ := List.mem_filter.mp kept
    have written : c ∈ (cookieList order n cols).toList := by
      rw [shape]
      exact List.mem_cons_of_mem _ (List.mem_append_left _ known)
    obtain ⟨clean, visible⟩ := cookieList_chars plain c written
    exact ⟨List.not_mem_cons_of_ne_of_not_mem (by simpa using noComma) clean, visible⟩

omit documented in
theorem plain_unnamed : ∀ name ∈ ({""} : Finset String), IsPlain name := by
  intro name member c inside
  rw [Finset.mem_singleton.mp member] at inside
  contradiction

theorem reload_eq {cols next : Finset String} {load : Load}
    (plain : ∀ name ∈ cols, IsPlain name) (nonempty : cols ≠ ∅)
    (whole : ReadsWhole stripsQuotes (cookieList order load.written cols))
    (reload : Reload parseEncoded order cols load next) : next = cols := by
  obtain ⟨carries, rfl⟩ := reload
  exact colsEnabled_of_nonempty documented plain nonempty whole carries

/-- Without the quotes the selection is never found again: it only gets smaller. -/
theorem reload_size_le {cols next : Finset String} {load : Load}
    (plain : ∀ name ∈ cols, IsPlain name)
    (reload : Reload parseEncoded order cols load next) :
    size next ≤ size cols ∧ ∀ name ∈ next, IsPlain name := by
  by_cases empty : cols = ∅
  · subst empty
    obtain ⟨carries, rfl⟩ := reload
    rw [colsEnabled_of_empty documented carries]
    exact ⟨by simp [size], plain_unnamed⟩
  · by_cases whole : ReadsWhole stripsQuotes (cookieList order load.written cols)
    · rw [reload_eq documented plain empty whole reload]
      exact ⟨le_rfl, plain⟩
    · obtain ⟨carries, rfl⟩ := reload
      obtain ⟨smaller, plain⟩ := colsEnabled_of_quoted documented plain empty whole carries
      exact ⟨smaller.le, plain⟩

theorem reaches_size_le {cols last : Finset String} {loads : List Load}
    (plain : ∀ name ∈ cols, IsPlain name)
    (run : Reaches (Reload parseEncoded order) cols loads last) : size last ≤ size cols := by
  induction run with
  | refl => exact le_rfl
  | next first _ ih =>
    obtain ⟨smaller, plain⟩ := reload_size_le documented plain first
    exact (ih plain).trans smaller

/-- A selection of which every list is read as it was written is kept. -/
theorem reaches_eq {cols last : Finset String} {loads : List Load}
    (plain : ∀ name ∈ cols, IsPlain name) (nonempty : cols ≠ ∅)
    (whole : ∀ load ∈ loads, ReadsWhole stripsQuotes (cookieList order load.written cols))
    (run : Reaches (Reload parseEncoded order) cols loads last) : last = cols := by
  induction run with
  | refl => rfl
  | next first later ih =>
    obtain ⟨head, rest⟩ := List.forall_mem_cons.mp whole
    obtain rfl := reload_eq documented plain nonempty head first
    exact ih plain nonempty rest

theorem reaches_of_empty {last : Finset String} {loads : List Load}
    (run : Reaches (Reload parseEncoded order) ∅ loads last) : loads = [] ∨ last = {""} := by
  cases run with
  | refl => exact .inl rfl
  | next first later =>
    obtain ⟨carries, rfl⟩ := first
    rw [colsEnabled_of_empty documented carries] at later
    refine .inr (reaches_eq documented plain_unnamed (Finset.singleton_ne_empty "") ?_ later)
    intro load _ _
    rw [cookieList, order.iter_singleton]
    rfl

/-- A run from a selection that is not empty comes back to it exactly when it never lost
quotes. The induction is over the run, as long as the selection is kept. -/
theorem reaches_eq_iff {cols last : Finset String} {loads : List Load}
    (plain : ∀ name ∈ cols, IsPlain name) (nonempty : cols ≠ ∅)
    (run : Reaches (Reload parseEncoded order) cols loads last) : last = cols ↔
      ∀ load ∈ loads, ReadsWhole stripsQuotes (cookieList order load.written cols) := by
  refine ⟨fun same => ?_, fun whole => reaches_eq documented plain nonempty whole run⟩
  induction run with
  | refl => simp
  | @next cols load mid loads last first later ih =>
    have kept : ReadsWhole stripsQuotes (cookieList order load.written cols) := by
      by_contra stripped
      obtain ⟨carries, rfl⟩ := first
      obtain ⟨smaller, plain⟩ := colsEnabled_of_quoted documented plain nonempty stripped carries
      have bound := reaches_size_le documented plain later
      rw [same] at bound
      omega
    obtain rfl := reload_eq documented plain nonempty kept first
    exact List.forall_mem_cons.mpr ⟨kept, ih plain nonempty same⟩

end Reload

/-- In every order and among all other cookies, the selection is read back from its
cookie, and kept over any number of reloads, exactly when it is not empty and none of the
written lists loses a pair of double quotes around it. -/
theorem cols_cookie_iff {stripsQuotes : Bool} {parseEncoded : String → Option Cookie}
    (documented : ParsesPlain stripsQuotes parseEncoded) (order : HashOrder String)
    {cols : Finset String} (plain : ∀ name ∈ cols, IsPlain name) :
    (∀ n headers, Carries parseEncoded headers (colsCookie order n cols) →
      ((appStateFromCookies parseEncoded headers).colsEnabled = cols ↔
        cols ≠ ∅ ∧ ReadsWhole stripsQuotes (cookieList order n cols))) ∧
    ∀ loads last, Reaches (Reload parseEncoded order) cols loads last →
      (last = cols ↔ loads = [] ∨ cols ≠ ∅ ∧
        ∀ load ∈ loads, ReadsWhole stripsQuotes (cookieList order load.written cols)) := by
  by_cases empty : cols = ∅
  · subst empty
    have other : ({""} : Finset String) ≠ ∅ := Finset.singleton_ne_empty ""
    constructor
    · intro n headers carries
      rw [colsEnabled_of_empty documented carries]
      exact iff_of_false other (fun ⟨nonempty, _⟩ => nonempty rfl)
    · intro loads last run
      rw [or_iff_left (fun ⟨nonempty, _⟩ => nonempty rfl)]
      constructor
      · rintro rfl
        exact (reaches_of_empty documented run).resolve_right other.symm
      · rintro rfl
        cases run
        rfl
  · constructor
    · intro n headers carries
      rw [and_iff_right empty]
      by_cases whole : ReadsWhole stripsQuotes (cookieList order n cols)
      · exact iff_of_true (colsEnabled_of_nonempty documented plain empty whole carries) whole
      · obtain ⟨smaller, _⟩ := colsEnabled_of_quoted documented plain empty whole carries
        exact iff_of_false (fun same => absurd (congrArg size same) smaller.ne) whole
    · intro loads last run
      rw [reaches_eq_iff documented plain empty run, and_iff_right empty]
      exact (or_iff_right_of_imp (by rintro rfl; simp)).symm

/-- A parser of cookies that are not encoded, which strips quotes. -/
def parsePlain (s : String) : Option Cookie :=
  let name := trim (String.ofList (s.toList.takeWhile (· ≠ '=')))
  match s.toList.dropWhile (· ≠ '=') with
  | [] => none
  | _ :: value =>
    let value := trim (String.ofList value)
    if name = "" ∨ '%' ∈ s.toList then none else some ⟨name, (quoted value).getD value⟩

theorem parsesPlain_parsePlain : ParsesPlain true parsePlain where
  plain name value noEquals clean nonempty := by
    have shape : (name ++ "=" ++ value).toList = name.toList ++ '=' :: value.toList := by simp
    have letters : ∀ c ∈ name.toList, decide (c ≠ '=') = true := by
      intro c member
      rw [decide_eq_true_eq]
      rintro rfl
      exact noEquals member
    have first : (name.toList ++ '=' :: value.toList).takeWhile (· ≠ '=') = name.toList := by
      rw [List.takeWhile_append_of_pos letters, List.takeWhile_cons_of_neg (by decide),
        List.append_nil]
    have rest : (name.toList ++ '=' :: value.toList).dropWhile (· ≠ '=') =
        '=' :: value.toList := by
      rw [List.dropWhile_append_of_pos letters, List.dropWhile_cons_of_neg (by decide)]
    have noPercent : '%' ∉ name.toList ++ '=' :: value.toList := by
      rw [List.mem_append, List.mem_cons]
      rintro (inside | same | inside)
      · exact clean _ (List.mem_append_left _ inside) (by decide)
      · exact absurd same (by decide)
      · exact clean _ (List.mem_append_right _ inside) (by decide)
    simp only [parsePlain, shape, first, rest, String.ofList_toList]
    exact if_neg (by simp [nonempty, noPercent])

/-- A header in which the cookie stands between others. -/
theorem carries_header {parseEncoded : String → Option Cookie} {before after : List String}
    {left cookie right : String} (blank : IsBlank left) (blank' : IsBlank right)
    (whole : ∀ segment ∈ before ++ (left ++ cookie ++ right) :: after, ';' ∉ segment.toList)
    (others : ∀ other ∈ before ++ after, ∀ parsed,
      parseEncoded other = some parsed → parsed.name ≠ "cols") :
    Carries parseEncoded [";".intercalate (before ++ (left ++ cookie ++ right) :: after)]
      cookie := by
  refine ⟨before, left, right, after, blank, blank', ?_, others⟩
  rw [List.flatMap_singleton]
  exact split_intercalate (by simp) whole

/-- Two columns. -/
def sampleCols : Finset String := {"comm", "pid"}

theorem sampleCols_plain : ∀ name ∈ sampleCols, IsPlain name := by
  intro name member
  rw [sampleCols, Finset.mem_insert, Finset.mem_singleton] at member
  rcases member with rfl | rfl <;> decide

/-- The cookie between two others. -/
def sampleHeader : String :=
  ";".intercalate (["theme=dark"] ++
    (" " ++ colsCookie (.ascending String) 0 sampleCols ++ "") :: [" lang=en"])

theorem sampleHeader_carries :
    Carries parsePlain [sampleHeader] (colsCookie (.ascending String) 0 sampleCols) := by
  have space : IsBlank " " := by
    intro c member
    rw [List.mem_singleton.mp member]
    rfl
  apply carries_header space isBlank_empty
  · intro segment member
    simp only [List.cons_append, List.nil_append, List.mem_cons, List.not_mem_nil,
      or_false] at member
    rcases member with rfl | rfl | rfl
    · decide
    · rw [String.append_empty, String.toList_append, List.mem_append]
      rintro (blank | inside)
      · exact absurd blank (by decide)
      · exact colsCookie_whole sampleCols_plain inside
    · decide
  · intro other member parsed parses
    simp only [List.cons_append, List.nil_append, List.mem_cons, List.not_mem_nil,
      or_false] at member
    rcases member with rfl | rfl <;> cases parses <;> decide

theorem cols_cookie_iff_sample :
    (appStateFromCookies parsePlain [sampleHeader]).colsEnabled = sampleCols ↔
      sampleCols ≠ ∅ ∧ ReadsWhole true (cookieList (.ascending String) 0 sampleCols) :=
  (cols_cookie_iff parsesPlain_parsePlain (.ascending String) sampleCols_plain).1 0 _
    sampleHeader_carries

/-- With no column enabled, the next page has enabled a column without a name. -/
theorem empty_selection_gains_name :
    colsCookie (.ascending String) 0 ∅ = "cols=" ∧
      Carries parsePlain ["cols="] (colsCookie (.ascending String) 0 ∅) ∧
      (appStateFromCookies parsePlain ["cols="]).colsEnabled = {""} ∧
      (appStateFromCookies parsePlain ["cols="]).colsEnabled ≠ ∅ := by
  have written : colsCookie (.ascending String) 0 ∅ = "cols=" := by
    rw [colsCookie, cookieList, HashOrder.iter_empty]
    rfl
  have carries : Carries parsePlain ["cols="] (colsCookie (.ascending String) 0 ∅) := by
    rw [written]
    exact ⟨[], "", "", [], isBlank_empty, isBlank_empty, rfl, by simp⟩
  have gained := colsEnabled_of_empty parsesPlain_parsePlain carries
  refine ⟨written, carries, gained, ?_⟩
  rw [gained]
  exact Finset.singleton_ne_empty ""

end Yaffle.Search

import Yaffle.Ingest.Loop
import Yaffle.Schema.Display

/-! The search request of `main.rs`: its URI, and the hits that come back. -/
namespace Yaffle.Search
open Gelf Ingest Schema

structure SearchOptions where
  query : String
  start_timestamp : Option UInt64
  end_timestamp : Option UInt64
  deriving DecidableEq

/-- The query pairs of a search. Without a query it asks for everything. -/
def queryPairs (sp : SearchOptions) : List (String × String) :=
  [("query", if sp.query.isEmpty then "*" else sp.query),
    ("sort_by_field", "-source_timestamp"), ("max_hits", "1000")] ++
  (sp.start_timestamp.map fun start => ("start_timestamp", toString start)).toList ++
  (sp.end_timestamp.map fun stop => ("end_timestamp", toString stop)).toList

/-- `Url`, and `Uri::from_str` on its text. A URL that cannot be a base has no path
segments. -/
structure UrlCrate where
  Url : Type
  parse : String → Except String Url
  extendPath : Url → List String → Option Url
  appendPairs : Url → List (String × String) → Url
  asStr : Url → String
  uriFromStr : String → Except String String

/-- The text of the errors `UriParse` and `UriBuild`. -/
def invalidUri (e : String) : String := "Invalid Quickwit URI: " ++ e

def buildSearchUri (crate : UrlCrate) (settings : Settings) (sp : SearchOptions) :
    Fallible String String := do
  let searchUrl ← ofExcept ((crate.parse settings.quickwitUrl).mapError invalidUri)
  let searchUrl ←
    liftM (Exec.unwrap
      (crate.extendPath searchUrl ["api", "v1", settings.quickwitIndex, "search"]))
  let searchUrl := crate.appendPairs searchUrl (queryPairs sp)
  ofExcept ((crate.uriFromStr (crate.asStr searchUrl)).mapError invalidUri)

/-- What a search calls: the URL, the request (which can fail while the body is read)
and `serde_json` on the body, with the texts of their errors. -/
structure Backend where
  crate : UrlCrate
  get : String → Except String (Except String Bytes)
  searchResults : Bytes → Except String (List Document)
  searchError : Bytes → Option String

/-- A body that holds no hits can still hold the message of an error. -/
def decodeHits (backend : Backend) (body : Bytes) : Except String (List Document) :=
  (backend.searchResults body).mapError fun err =>
    (backend.searchError body).getD
      ("Error decoding " ++ Utf8.fromUtf8Lossy body ++ ": " ++ err)

/-- The first half of `search`: from the options to the hits. -/
def findHits (backend : Backend) (settings : Settings) (options : SearchOptions) :
    Fallible String (List Document) := do
  let searchUri ← buildSearchUri backend.crate settings options
  let response ← ofExcept (backend.get searchUri)
  let body ← ofExcept response
  ofExcept (decodeHits backend body)

end Yaffle.Search

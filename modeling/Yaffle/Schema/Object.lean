import Yaffle.Schema.Fallback

/-! A GELF message as a JSON object: its derived `Deserialize`, and what `from_gelf` sees
of the object. -/
namespace Yaffle.Schema
open Chrono Json Gelf Fallible

/-- The fields of the struct that are not flattened. -/
def memberNames : List String := ["version", "host", "short_message"]

/-- `#[derive(Deserialize)]` of `GELFMessage`: three entries that have to be there once,
and the map of all others. -/
def visitMessage (entries : List (String × Value)) : Option GELFMessage := do
  let version ← requiredEntry entries "version" (fromValue .string)
  let host ← requiredEntry entries "host" (fromValue .string)
  let short_message ← requiredEntry entries "short_message" (fromValue .string)
  return ⟨version, host, short_message,
    collectEntries (entries.filter fun entry => entry.1 ∉ memberNames)⟩

section Object
variable {entries others : List (String × Value)} {msg : GELFMessage}

theorem fromValue_string {value : Value} {s : String}
    (read : fromValue .string value = some s) : value = .string s := by
  cases value with
  | string text => exact congrArg Value.string (Option.some.inj read)
  | null | bool | number | array | object => contradiction

/-- What is read of an object. -/
structure ReadFrom (entries : List (String × Value)) (msg : GELFMessage) : Prop where
  version : entries.filter (fun entry => entry.1 = "version") = [("version", .string msg.version)]
  host : entries.filter (fun entry => entry.1 = "host") = [("host", .string msg.host)]
  short_message : entries.filter (fun entry => entry.1 = "short_message") =
    [("short_message", .string msg.short_message)]
  other : msg.other = collectEntries (entries.filter fun entry => entry.1 ∉ memberNames)

theorem requiredEntry_string {key s : String} :
    requiredEntry entries key (fromValue .string) = some s ↔
      entries.filter (fun entry => entry.1 = key) = [(key, .string s)] := by
  rw [requiredEntry_some]
  constructor
  · rintro ⟨value, found, read⟩
    rwa [fromValue_string read] at found
  · intro found
    exact ⟨_, found, rfl⟩

theorem visitMessage_some : visitMessage entries = some msg ↔ ReadFrom entries msg := by
  unfold visitMessage
  constructor
  · intro read
    obtain ⟨version, first, read⟩ := Option.bind_eq_some_iff.mp read
    obtain ⟨host, second, read⟩ := Option.bind_eq_some_iff.mp read
    obtain ⟨text, third, read⟩ := Option.bind_eq_some_iff.mp read
    cases read
    exact ⟨requiredEntry_string.mp first, requiredEntry_string.mp second,
      requiredEntry_string.mp third, rfl⟩
  · rintro ⟨version, host, text, other⟩
    rw [requiredEntry_string.mpr version, requiredEntry_string.mpr host,
      requiredEntry_string.mpr text, ← other]
    rfl

/-- The accessor of a key finds the last entry that the object has under it, also where it
reads a field of the struct. -/
theorem gelfAccessor_eq (read : ReadFrom entries msg) (key : String) :
    gelfAccessor msg key = entries.reverse.lookup key := by
  obtain ⟨version, host, text, other⟩ := read
  unfold gelfAccessor
  split
  · rename_i named
    rw [named, lookup_of_filter version]
  · rename_i notVersion
    split
    · rename_i named
      rw [named, lookup_of_filter host]
    · rename_i notHost
      split
      · rename_i named
        rw [named, lookup_of_filter text]
      · rename_i notText
        have kept : decide (key ∉ memberNames) = true := by
          simp [memberNames, notVersion, notHost, notText]
        rw [other, lookup_collectEntries, ← List.filter_reverse,
          lookup_filter (fun name => decide (name ∉ memberNames)), if_pos kept]

theorem collectEntries_perm (same : entries.Perm others)
    (distinct : (entries.map Prod.fst).Nodup) : collectEntries entries = collectEntries others := by
  refine Finmap.ext_lookup fun key => ?_
  rw [lookup_collectEntries, lookup_collectEntries]
  apply lookup_perm
  · exact (List.reverse_perm entries).trans (same.trans (List.reverse_perm others).symm)
  · rw [List.map_reverse]
    exact List.nodup_reverse.mpr distinct

/-- With distinct keys the message does not depend on the order of the entries. -/
theorem visitMessage_perm (same : entries.Perm others)
    (distinct : (entries.map Prod.fst).Nodup) : visitMessage entries = visitMessage others := by
  have rest := same.filter fun entry => entry.1 ∉ memberNames
  have apart : ((entries.filter fun entry => entry.1 ∉ memberNames).map Prod.fst).Nodup :=
    distinct.sublist (List.filter_sublist.map Prod.fst)
  simp only [visitMessage, requiredEntry_perm same, collectEntries_perm rest apart]

/-- The conversion of a message is decided by what its accessors find under the keys of the
fields. -/
theorem fromGelf_congr (env : Environment) {msg msg' : GELFMessage}
    (same : ∀ field ∈ schema, ∀ source ∈ field.fromGelf,
      gelfAccessor msg source.key = gelfAccessor msg' source.key) :
    fromGelf env msg = fromGelf env msg' := by
  refine Record.build_congr fun field member => constructorExpr_congr fun source inside => ?_
  rw [gelfExpr, gelfExpr, same field member source inside]

end Object

/-- What `from_gelf` makes of a message is what the object says: under each key it finds
the last entry of the object, in whatever order the entries of distinct keys stand, and
entries that no field asks for change nothing. -/
theorem gelf_object_read {entries : List (String × Value)} {msg : GELFMessage}
    (read : visitMessage entries = some msg) :
    (∀ key, gelfAccessor msg key = entries.reverse.lookup key) ∧
    (∀ others, entries.Perm others → (entries.map Prod.fst).Nodup →
      visitMessage others = some msg) ∧
    ∀ others msg', visitMessage others = some msg' →
      (∀ field ∈ schema, ∀ source ∈ field.fromGelf,
        entries.reverse.lookup source.key = others.reverse.lookup source.key) →
      ∀ env, fromGelf env msg' = fromGelf env msg := by
  have found := gelfAccessor_eq (visitMessage_some.mp read)
  refine ⟨found, ?_, ?_⟩
  · intro others same distinct
    rw [← visitMessage_perm same distinct, read]
  · intro others msg' read' agree env
    refine fromGelf_congr env fun field member source inside => ?_
    rw [found, gelfAccessor_eq (visitMessage_some.mp read'), agree field member source inside]

/-- An object with a key twice and a key that no field asks for. -/
def sampleObject : List (String × Value) :=
  [("host", .string "web1"), ("_PID", .number "1"), ("version", .string "1.1"),
    ("short_message", .string "started"), ("_PID", .number "7"), ("_color", .string "red")]

theorem gelf_object_read_sample : ∃ msg, visitMessage sampleObject = some msg ∧
    gelfAccessor msg "host" = some (.string "web1") ∧ gelfAccessor msg "_PID" = some (.number "7") ∧
    gelfAccessor msg "_UID" = none := by
  have read : ∃ msg, visitMessage sampleObject = some msg :=
    ⟨⟨"1.1", "web1", "started", _⟩, visitMessage_some.mpr
      ⟨by simp [sampleObject], by simp [sampleObject], by simp [sampleObject], rfl⟩⟩
  obtain ⟨msg, read⟩ := read
  obtain ⟨found, _⟩ := gelf_object_read read
  exact ⟨msg, read, found _, found _, found _⟩

end Yaffle.Schema

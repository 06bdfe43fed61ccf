import Mathlib.Data.Finmap
import Yaffle.Schema.Display

/-! The front half of `derive_yaffle_schema`: what the derive macro reads of the
attributes of a struct with named fields. -/
namespace Yaffle.Macros
open Schema

/-- A path, as far as `get_ident` and `is_ident` see it: the identifier, if it is one. -/
abbrev Path := Option String

/-- A literal is a string or of no use to the macro. -/
inductive Lit where
  | str (value : String)
  | other

/-- A list inside of a list is never looked into. -/
inductive NestedMeta where
  | path (path : Path)
  | nameValue (path : Path) (lit : Lit)
  | list (path : Path)
  | lit (lit : Lit)

inductive Meta where
  | path (path : Path)
  | list (path : Path) (nested : List NestedMeta)
  | nameValue (path : Path) (lit : Lit)

/-- A field of the struct. An attribute is what `parse_meta` makes of it, if it can. -/
structure FieldDecl where
  ident : String
  attrs : List (Option Meta)

inductive FieldValueConversion where
  | none (field : String)
  | floatSecToUsec (field : String)
  | hexToUint (field : String)
  | syslogTimestamp (field : String)
  | dateTimeToUsec (field : String)

def FieldValueConversion.fromAttribute (fieldname conversion : String) :
    Option FieldValueConversion :=
  match conversion with
  | "none" => some (.none fieldname)
  | "float_sec_to_usec" => some (.floatSecToUsec fieldname)
  | "hex_to_uint" => some (.hexToUint fieldname)
  | "syslog_timestamp" => some (.syslogTimestamp fieldname)
  | "datetime_to_usec" => some (.dateTimeToUsec fieldname)
  | _ => Option.none

/-- `TantivyType::from_attribute`; no attribute asks for a JSON object. -/
def tantivyType (attr : String) : Option TantivyType :=
  match attr with
  | "string" => some .string
  | "text" => some .text
  | "u64" => some .u64
  | "i64" => some .i64
  | "timestamp" => some .timestamp
  | "fast_timestamp" => some .fastTimestamp
  | _ => none

/-- `FormatOption::from_attribute`. -/
def formatOption (attr : String) : Option FormatOption :=
  match attr with
  | "syslog_priority" => some .syslogPriority
  | "hex" => some .hex
  | _ => none

/-- An item of another form is passed over, and so is an unknown conversion. -/
def processInnerAttr : NestedMeta → Option FieldValueConversion
  | .path innerPath => innerPath.bind fun i => FieldValueConversion.fromAttribute i "none"
  | .nameValue path (.str conv) => path.bind fun i => FieldValueConversion.fromAttribute i conv
  | .lit (.str litStr) => FieldValueConversion.fromAttribute litStr "none"
  | _ => none

/-- What the macro has read of the fields so far. -/
structure Collected where
  fromGelfFields : List (String × List FieldValueConversion)
  fromSyslogFields : List (String × List FieldValueConversion)
  tantivyFields : List (String × TantivyType)
  formatOptions : Finmap fun _ : String => FormatOption

def Collected.empty : Collected := ⟨[], [], [], ∅⟩

/-- The conversions of one field so far, and what is read of all. -/
structure FieldScan where
  fromGelf : List FieldValueConversion
  fromSyslog : List FieldValueConversion
  collected : Collected

/-- One attribute. An unknown storage type or format is a panic of the macro, and the
struct does not compile. -/
def scanAttr (ident : String) (scan : FieldScan) : Option Meta → Option FieldScan
  | some (.list (some "from_gelf") nested) =>
    some { scan with fromGelf := scan.fromGelf ++ nested.filterMap processInnerAttr }
  | some (.list (some "from_syslog") nested) =>
    some { scan with fromSyslog := scan.fromSyslog ++ nested.filterMap processInnerAttr }
  | some (.nameValue (some "storage_type") (.str typename)) => do
    let type ← tantivyType typename
    some { scan with
      collected.tantivyFields := scan.collected.tantivyFields ++ [(ident, type)] }
  | some (.nameValue (some "format") (.str fmt)) => do
    let option ← formatOption fmt
    some { scan with
      collected.formatOptions := scan.collected.formatOptions.insert ident option }
  | _ => some scan

def scanField (collected : Collected) (field : FieldDecl) : Option Collected := do
  let scan ← field.attrs.foldlM (scanAttr field.ident) ⟨[], [], collected⟩
  some { scan.collected with
    fromGelfFields := scan.collected.fromGelfFields ++ [(field.ident, scan.fromGelf)]
    fromSyslogFields := scan.collected.fromSyslogFields ++ [(field.ident, scan.fromSyslog)] }

def scanFields (fields : List FieldDecl) : Option Collected :=
  fields.foldlM scanField .empty

section Declare

/-- The item that asks for a source of a field. -/
def gelfAttr : FromGelf type → NestedMeta
  | .none key => .path (some key)
  | .floatSecToUsec key => .nameValue (some key) (.str "float_sec_to_usec")
  | .hexToUint key => .nameValue (some key) (.str "hex_to_uint")
  | .syslogTimestamp key => .nameValue (some key) (.str "syslog_timestamp")

def gelfConversion : FromGelf type → FieldValueConversion
  | .none key => .none key
  | .floatSecToUsec key => .floatSecToUsec key
  | .hexToUint key => .hexToUint key
  | .syslogTimestamp key => .syslogTimestamp key

/-- The member of the message. -/
def syslogMember : SyslogField type → String
  | .priority => "priority"
  | .facility => "facility"
  | .hostname => "hostname"
  | .identifier => "identifier"
  | .pid => "pid"
  | .message => "message"
  | .full_message => "full_message"

def syslogAttr : FromSyslog type → NestedMeta
  | .none field => .path (some (syslogMember field))
  | .dateTimeToUsec => .nameValue (some "source_timestamp") (.str "datetime_to_usec")

def syslogConversion : FromSyslog type → FieldValueConversion
  | .none field => .none (syslogMember field)
  | .dateTimeToUsec => .dateTimeToUsec "source_timestamp"

def storageAttr : TantivyType → Meta
  | .string => storage "string"
  | .text => storage "text"
  | .u64 => storage "u64"
  | .i64 => storage "i64"
  | .timestamp => storage "timestamp"
  | .fastTimestamp => storage "fast_timestamp"
where
  storage (typename : String) : Meta := .nameValue (some "storage_type") (.str typename)

def formatAttr : FormatOption → Meta
  | .syslogPriority => .nameValue (some "format") (.str "syslog_priority")
  | .hex => .nameValue (some "format") (.str "hex")

def serdeAttr : Meta :=
  .list (some "serde") [.nameValue (some "skip_serializing_if") (.str "Option::is_none")]

def syslogAttrs (field : Field) : List Meta :=
  if field.fromSyslog.isEmpty then []
  else [.list (some "from_syslog") (field.fromSyslog.map syslogAttr)]

/-- How a field is written in the struct. -/
def declare (field : Field) : FieldDecl where
  ident := field.name
  attrs := (Meta.list (some "from_gelf") (field.fromGelf.map gelfAttr) :: syslogAttrs field ++
    storageAttr field.storageType :: field.format.toList.map formatAttr ++
    if field.skipIfNone then [serdeAttr] else []).map some

theorem processInnerAttr_gelfAttr (source : FromGelf type) :
    processInnerAttr (gelfAttr source) = some (gelfConversion source) := by
  cases source <;> rfl

theorem processInnerAttr_syslogAttr (source : FromSyslog type) :
    processInnerAttr (syslogAttr source) = some (syslogConversion source) := by
  cases source <;> rfl

/-- The macro reads every item that asks for a source. -/
theorem filterMap_processInnerAttr {attr : σ → NestedMeta} {conversion : σ → FieldValueConversion}
    (reads : ∀ source, processInnerAttr (attr source) = some (conversion source))
    (sources : List σ) :
    (sources.map attr).filterMap processInnerAttr = sources.map conversion := by
  rw [List.filterMap_map, ← List.filterMap_eq_map]
  exact List.filterMap_congr fun source _ => reads source

theorem scanAttr_storageAttr (ident : String) (scan : FieldScan) (type : TantivyType) :
    scanAttr ident scan (storageAttr type) = some { scan with
      collected.tantivyFields := scan.collected.tantivyFields ++ [(ident, type)] } := by
  cases type <;> rfl

theorem scanAttr_formatAttr (ident : String) (scan : FieldScan) (option : FormatOption) :
    scanAttr ident scan (formatAttr option) = some { scan with
      collected.formatOptions := scan.collected.formatOptions.insert ident option } := by
  cases option <;> rfl

/-- The format that a field adds to those before it, if it has one. -/
def insertFormat (formats : Finmap fun _ : String => FormatOption) (field : Field) :
    Finmap fun _ : String => FormatOption :=
  field.format.elim formats (formats.insert field.name)

theorem scanAttr_gelf (ident : String) (scan : FieldScan) (sources : List (FromGelf type)) :
    scanAttr ident scan (some (.list (some "from_gelf") (sources.map gelfAttr))) =
      some { scan with fromGelf := scan.fromGelf ++ sources.map gelfConversion } := by
  rw [scanAttr, filterMap_processInnerAttr processInnerAttr_gelfAttr]

theorem scanAttr_syslog (ident : String) (scan : FieldScan) (field : Field) :
    ((syslogAttrs field).map some).foldlM (scanAttr ident) scan = some { scan with
      fromSyslog := scan.fromSyslog ++ field.fromSyslog.map syslogConversion } := by
  unfold syslogAttrs
  split
  · rename_i absent
    rw [List.isEmpty_iff.mp absent, List.map_nil, List.map_nil, List.append_nil]
    rfl
  · rw [List.map_singleton, List.foldlM_cons, scanAttr,
      filterMap_processInnerAttr processInnerAttr_syslogAttr]
    rfl

theorem scanAttr_format (scan : FieldScan) (field : Field) :
    ((field.format.toList.map formatAttr).map some).foldlM (scanAttr field.name) scan =
      some { scan with
        collected.formatOptions := insertFormat scan.collected.formatOptions field } := by
  unfold insertFormat
  cases field.format with
  | none => rfl
  | some option =>
    rw [Option.toList_some, List.map_singleton, List.map_singleton, List.foldlM_cons,
      scanAttr_formatAttr]
    rfl

/-- The attributes of a field say what the field is. -/
theorem scanField_declare (collected : Collected) (field : Field) :
    scanField collected (declare field) = some
      { fromGelfFields := collected.fromGelfFields ++
          [(field.name, field.fromGelf.map gelfConversion)]
        fromSyslogFields := collected.fromSyslogFields ++
          [(field.name, field.fromSyslog.map syslogConversion)]
        tantivyFields := collected.tantivyFields ++ [(field.name, field.storageType)]
        formatOptions := insertFormat collected.formatOptions field } := by
  have serde (scan : FieldScan) : ((if field.skipIfNone then [serdeAttr] else []).map some).foldlM
      (scanAttr field.name) scan = some scan := by
    cases field.skipIfNone <;> rfl
  rw [scanField, declare, List.map_append, List.foldlM_append, List.map_append, List.map_cons,
    List.cons_append, List.foldlM_cons, scanAttr_gelf]
  simp only [List.foldlM_append, List.map_cons, List.foldlM_cons, scanAttr_syslog,
    scanAttr_storageAttr, scanAttr_format, serde, Option.bind_eq_bind, Option.bind_some,
    List.nil_append]

/-- The formats of the fields, where a later one of a name would replace an earlier one. -/
def declaredFormats (fields : List Field) : Finmap fun _ : String => FormatOption :=
  fields.foldl insertFormat ∅

theorem scanFields_declare (fields : List Field) : scanFields (fields.map declare) = some
    { fromGelfFields := fields.map fun field => (field.name, field.fromGelf.map gelfConversion)
      fromSyslogFields :=
        fields.map fun field => (field.name, field.fromSyslog.map syslogConversion)
      tantivyFields := fields.map fun field => (field.name, field.storageType)
      formatOptions := declaredFormats fields } := by
  have general (collected : Collected) : (fields.map declare).foldlM scanField collected = some
      { fromGelfFields := collected.fromGelfFields ++
          fields.map fun field => (field.name, field.fromGelf.map gelfConversion)
        fromSyslogFields := collected.fromSyslogFields ++
          fields.map fun field => (field.name, field.fromSyslog.map syslogConversion)
        tantivyFields := collected.tantivyFields ++
          fields.map fun field => (field.name, field.storageType)
        formatOptions := fields.foldl insertFormat collected.formatOptions } := by
    induction fields generalizing collected with
    | nil => simp
    | cons field fields ih =>
      rw [List.map_cons, List.foldlM_cons, scanField_declare]
      simp [ih]
  rw [scanFields, general]
  rfl

theorem lookup_insertFormat (formats : Finmap fun _ : String => FormatOption) (field : Field)
    (name : String) : (insertFormat formats field).lookup name =
      if name = field.name then field.format.or (formats.lookup name)
      else formats.lookup name := by
  unfold insertFormat
  by_cases same : name = field.name
  · rw [if_pos same]
    cases field.format with
    | none => rfl
    | some option =>
      rw [same]
      exact Finmap.lookup_insert formats
  · rw [if_neg same]
    cases field.format with
    | none => rfl
    | some option => exact Finmap.lookup_insert_of_ne formats same

/-- Names that no field has keep their formats. -/
theorem lookup_insertFormats_of_notMem {fields : List Field} {name : String}
    (absent : name ∉ fields.map Field.name) (formats : Finmap fun _ : String => FormatOption) :
    (fields.foldl insertFormat formats).lookup name = formats.lookup name := by
  induction fields generalizing formats with
  | nil => rfl
  | cons first fields ih =>
    rw [List.map_cons, List.mem_cons, not_or] at absent
    rw [List.foldl_cons, ih absent.2, lookup_insertFormat, if_neg absent.1]

/-- Each field is shown in its own format, as no other field of a struct has its name. -/
theorem lookup_declaredFormats {fields : List Field} (distinct : (fields.map Field.name).Nodup)
    {field : Field} (member : field ∈ fields) :
    (declaredFormats fields).lookup field.name = field.format := by
  have general (formats : Finmap fun _ : String => FormatOption)
      (fresh : formats.lookup field.name = none) :
      (fields.foldl insertFormat formats).lookup field.name = field.format := by
    induction fields generalizing formats with
    | nil => contradiction
    | cons first fields ih =>
      obtain ⟨absent, distinct⟩ := List.nodup_cons.mp distinct
      rw [List.foldl_cons]
      rcases List.mem_cons.mp member with rfl | later
      · rw [lookup_insertFormats_of_notMem absent, lookup_insertFormat, if_pos rfl, fresh,
          Option.or_none]
      · refine ih distinct later _ ?_
        rw [lookup_insertFormat, if_neg, fresh]
        intro same
        rw [← same] at absent
        exact absent (List.mem_map_of_mem later)
  exact general ∅ (Finmap.lookup_empty _)

end Declare
end Yaffle.Macros

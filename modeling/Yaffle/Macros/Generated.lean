import Yaffle.Macros.Attributes
import Yaffle.Quickwit
import Yaffle.Schema.Convert

/-! The back half of `derive_yaffle_schema`: the expressions that the macro writes, what
they mean to the compiler, and that they mean what the rows of the schema say. -/
namespace Yaffle.Macros
open Chrono Schema Gelf Syslog Quickwit

/-- The functions of the trait that are called with a reference to a value. -/
inductive Converter where
  | floatSecToUsec
  | hexToUint
  | syslogTimestamp

/-- The expressions that the constructors are written with. -/
inductive Expr where
  /-- `None` -/
  | none
  /-- `Some(Value::String(msg.field.to_owned()))` -/
  | ownedString (field : String)
  /-- `msg.other.get(field)` -/
  | otherGet (field : String)
  /-- `Some(msg.field.clone().into())` -/
  | someInto (field : String)
  /-- `msg.field.clone().into()` -/
  | into (field : String)
  /-- `e.map(to_value)` -/
  | mapToValue (e : Expr)
  /-- `e.map(|val| ..).transpose()?`, with `from_value` and then `parse` -/
  | mapFromValue (e : Expr)
  /-- `e.map(|val| Self::converter(val)).transpose()?` -/
  | mapConverter (converter : Converter) (e : Expr)
  /-- `e.map(|val| Self::convert_datetime_to_usec(val))` -/
  | mapDatetimeToUsec (e : Expr)
  /-- `existing.or(e)` -/
  | or (existing e : Expr)

def Expr.gelfAccessor (field : String) : Expr :=
  if field = "version" ∨ field = "host" ∨ field = "short_message" then .ownedString field
  else .otherGet field

def Expr.syslogAccessor (field : String) : Expr :=
  if field = "priority" ∨ field = "facility" ∨ field = "source_timestamp" ∨ field = "message" ∨
      field = "full_message" then .someInto field
  else .into field

def FieldValueConversion.conversionExpr (syslog : Bool) : FieldValueConversion → Expr
  | .none field =>
    if syslog then .syslogAccessor field else .mapFromValue (.gelfAccessor field)
  | .floatSecToUsec field => .mapConverter .floatSecToUsec (value field)
  | .hexToUint field => .mapConverter .hexToUint (value field)
  | .syslogTimestamp field => .mapConverter .syslogTimestamp (value field)
  | .dateTimeToUsec field =>
    .mapDatetimeToUsec (if syslog then .syslogAccessor field else .gelfAccessor field)
where
  value (field : String) : Expr :=
    if syslog then .mapToValue (.syslogAccessor field) else .gelfAccessor field

/-- `constructor_expr`: a chain of `.or(..)` that grows to the left. -/
def Expr.constructorExpr (sourceFields : List FieldValueConversion) (syslog : Bool) : Expr :=
  (sourceFields.foldl (fun expr sourceField =>
    let accessor := sourceField.conversionExpr syslog
    (expr.map fun existing => .or existing accessor).or (some accessor)) Option.none).getD .none

/-- How a display statement makes its text of the value. -/
inductive Accessor where
  | into
  | severity
  | hex
  | toString
  | timestamp

def displayAccessor (formats : Finmap fun _ : String => FormatOption) (field : String) :
    TantivyType → Accessor
  | .string | .text => .into
  | .u64 | .i64 =>
    match formats.lookup field with
    | some .syslogPriority => .severity
    | some .hex => .hex
    | none => .toString
  | .timestamp | .fastTimestamp => .timestamp

/-- The code that the macro hands back. -/
structure Expanded where
  gelfConstructExprs : List (String × Expr)
  syslogConstructExprs : List (String × Expr)
  quickwitDocumentExprs : List FieldMapping
  toDisplayStmts : List (String × Accessor)

def deriveYaffleSchema (fields : List FieldDecl) : Option Expanded := do
  let collected ← scanFields fields
  some
    { gelfConstructExprs := collected.fromGelfFields.map fun (field, fromGelfs) =>
        (field, .constructorExpr fromGelfs false)
      syslogConstructExprs := collected.fromSyslogFields.map fun (field, fromSyslogs) =>
        (field, .constructorExpr fromSyslogs true)
      quickwitDocumentExprs := collected.tantivyFields.map fun (field, type) =>
        fieldMapping field type
      toDisplayStmts := collected.tantivyFields.map fun (field, type) =>
        (field, displayAccessor collected.formatOptions field type) }

section Meaning
variable (env : Environment)

/-- What an expression makes of the message. -/
abbrev Meaning (Message α : Type) := Message → Conversion (Option α)

/-- A reference into the message, or a value made from it. -/
inductive Access where
  | borrowed (get : GELFMessage → Option Json.Value)
  | owned (get : GELFMessage → Option Json.Value)

def Access.get : Access → GELFMessage → Option Json.Value
  | borrowed get | owned get => get

def Expr.access : Expr → Option Access
  | .ownedString "version" => some (.owned fun msg => some (.string msg.version))
  | .ownedString "host" => some (.owned fun msg => some (.string msg.host))
  | .ownedString "short_message" => some (.owned fun msg => some (.string msg.short_message))
  | .otherGet field => some (.borrowed fun msg => msg.other.lookup field)
  | _ => Option.none

/-- The trait's functions take a reference. -/
def Converter.apply (converter : Converter) (val : Json.Value) : Conversion UInt64 :=
  match converter with
  | .floatSecToUsec => FromGelf.convert.liftExcept (convertFloatSecToUsec val)
  | .hexToUint => FromGelf.convert.liftExcept (convertHexToUint val)
  | .syslogTimestamp => convertSyslogTimestamp env val

/-- `option.map(convert).transpose()?`. -/
def mapTranspose (convert : α → Conversion β) : Option α → Conversion (Option β)
  | some val => do return some (← convert val)
  | none => return none

/-- `existing.or(e)`, where the `?` of either side returns from the constructor. -/
def Meaning.or (existing e : Meaning Message α) : Meaning Message α := fun msg => do
  let first ← existing msg
  let second ← e msg
  return first.or second

/-- An expression has no meaning in a constructor where its type is not the field's. -/
def orMeaning (existing e : Option (Meaning Message α)) : Option (Meaning Message α) := do
  some ((← existing).or (← e))

def Expr.evalGelf : (type : FieldType) → Expr → Option (Meaning GELFMessage type.Carrier)
  | _, .none => some fun _ => return Option.none
  | type, .mapFromValue e =>
    e.access.map fun access msg =>
      mapTranspose (fun val => FromGelf.convert.liftExcept (convertNone type val)) (access.get msg)
  | .u64, .mapConverter converter e =>
    match e.access with
    | some (.borrowed get) => some fun msg => mapTranspose (converter.apply env) (get msg)
    | _ => Option.none
  | type, .or existing e => orMeaning (existing.evalGelf type) (e.evalGelf type)
  | _, _ => Option.none

/-- `into` is the identity but for the priority. -/
def Expr.evalSyslog : (type : FieldType) → Expr → Option (Meaning SyslogMessage type.Carrier)
  | _, .none => some fun _ => return Option.none
  | .u64, .someInto "priority" => some fun msg => return some msg.priority.toUInt64
  | .string, .someInto "facility" => some fun msg => return some msg.facility
  | .string, .someInto "message" => some fun msg => return some msg.message
  | .string, .someInto "full_message" => some fun msg => return some msg.full_message
  | .string, .into "hostname" => some fun msg => return msg.hostname
  | .string, .into "identifier" => some fun msg => return msg.identifier
  | .u64, .into "pid" => some fun msg => return msg.pid
  | .u64, .mapDatetimeToUsec (.someInto "source_timestamp") =>
    some fun msg => do return some (← convertDatetimeToUsec env msg.source_timestamp)
  | type, .or existing e => orMeaning (existing.evalSyslog type) (e.evalSyslog type)
  | _, _ => Option.none

/-- The struct literal of a constructor: each field of the struct with its expression, in
the order in which they are evaluated. -/
def evalConstructor (eval : (type : FieldType) → Expr → Option (Meaning Message type.Carrier)) :
    (fields : List Field) → List (String × Expr) →
      Option (Message → Conversion (Record Field.Value fields))
  | [], [] => some fun _ => return .nil
  | field :: fields, (name, expr) :: exprs =>
    if name = field.name then do
      let value ← eval field.storageType.fieldType expr
      let rest ← evalConstructor eval fields exprs
      some fun msg => do
        let first ← value msg
        let later ← rest msg
        return .cons first later
    else none
  | _, _ => none

/-- A display statement's text of a value. -/
def Accessor.text (timestampText : TimestampText) :
    Accessor → (type : FieldType) → type.Carrier → Option String
  | .into, .string, (value : String) => some value
  | .severity, .u64, (value : UInt64) =>
    some (integerText (some .syslogPriority) (ToString.toString value) value)
  | .severity, .i64, (value : Int64) =>
    some (integerText (some .syslogPriority) (ToString.toString value) value.toUInt64)
  | .hex, .u64, (value : UInt64) => some ("0x" ++ hexText value)
  | .hex, .i64, (value : Int64) => some ("0x" ++ hexText value.toUInt64)
  | .toString, .u64, (value : UInt64) => some (ToString.toString value)
  | .toString, .i64, (value : Int64) => some (ToString.toString value)
  | .timestamp, .u64, (value : UInt64) => some (usecText timestampText value)
  | _, _, _ => none

/-- `if let Some(ref value) = document.field { hashmap.insert(field, ..) }`. -/
def Accessor.run (timestampText : TimestampText) (accessor : Accessor) (field : Field)
    (value : field.Value) (hashmap : DisplayMap) : Option DisplayMap :=
  match value with
  | some value =>
    (accessor.text timestampText field.storageType.fieldType value).map fun text =>
      hashmap.insert field.name text
  | none => some hashmap

/-- The display statements, one for each field of the struct, from the map so far. -/
def runDisplay (timestampText : TimestampText) : {fields : List Field} →
    Record Field.Value fields → List (String × Accessor) → DisplayMap → Option DisplayMap
  | [], .nil, stmts, hashmap => if stmts.isEmpty then some hashmap else none
  | field :: _, .cons value rest, stmts, hashmap =>
    match stmts with
    | (name, accessor) :: stmts =>
      if name = field.name then do
        let hashmap ← accessor.run timestampText field value hashmap
        runDisplay timestampText rest stmts hashmap
      else none
    | [] => none

end Meaning

section Correct

theorem Meaning.or_eq_constructorExpr {accessor : σ → Meaning Message α} (source : σ)
    (sources : List σ) :
    (accessor source).or (fun msg => constructorExpr (accessor · msg) sources) =
      fun msg => constructorExpr (accessor · msg) (source :: sources) := rfl

theorem Meaning.or_assoc (first second third : Meaning Message α) :
    (first.or second).or third = first.or (second.or third) := by
  funext msg
  simp only [Meaning.or, bind_assoc, pure_bind, Option.or_assoc]

theorem Meaning.or_none (first : Meaning Message α) :
    (first.or fun _ => return none) = first := by
  funext msg
  simp [Meaning.or]

/-- With a first source there is an expression that the chain starts from. -/
theorem Expr.constructorExpr_cons (first : FieldValueConversion)
    (later : List FieldValueConversion) (syslog : Bool) :
    Expr.constructorExpr (first :: later) syslog =
      later.foldl (fun existing sourceField => .or existing (sourceField.conversionExpr syslog))
        (first.conversionExpr syslog) := by
  have general (existing : Expr) : later.foldl (fun expr sourceField =>
      let accessor := sourceField.conversionExpr syslog
      (expr.map fun existing => Expr.or existing accessor).or (some accessor)) (some existing) =
        some (later.foldl (fun existing sourceField =>
          .or existing (sourceField.conversionExpr syslog)) existing) := by
    induction later generalizing existing with
    | nil => rfl
    | cons second later ih => exact ih (.or existing (second.conversionExpr syslog))
  exact congrArg (Option.getD · Expr.none) (general (first.conversionExpr syslog))

section Chain
variable {eval : Expr → Option (Meaning Message α)} {conversion : σ → FieldValueConversion}
  {accessor : σ → Meaning Message α} {syslog : Bool} {sources : List σ}

/-- The chain grows to the left, and the rows are read from the right: the induction is
over the sources, for any expression that the chain has grown to. -/
theorem eval_foldl_or
    (or : ∀ existing e, eval (.or existing e) = orMeaning (eval existing) (eval e))
    (reads : ∀ source ∈ sources,
      eval ((conversion source).conversionExpr syslog) = some (accessor source))
    {existing : Expr} {first : Meaning Message α} (given : eval existing = some first) :
    eval ((sources.map conversion).foldl
        (fun existing sourceField => .or existing (sourceField.conversionExpr syslog)) existing) =
      some (first.or fun msg => constructorExpr (accessor · msg) sources) := by
  induction sources generalizing existing first with
  | nil =>
    rw [List.map_nil, List.foldl_nil, given]
    exact congrArg some first.or_none.symm
  | cons source sources ih =>
    obtain ⟨head, later⟩ := List.forall_mem_cons.mp reads
    have extended : eval (.or existing ((conversion source).conversionExpr syslog)) =
        some (first.or (accessor source)) := by
      rw [or, given, head]
      rfl
    rw [List.map_cons, List.foldl_cons, ih later extended, Meaning.or_assoc,
      Meaning.or_eq_constructorExpr]

/-- A generated chain means what the rows say, if each of its sources does. -/
theorem eval_constructorExpr (none : eval .none = some fun _ => return Option.none)
    (or : ∀ existing e, eval (.or existing e) = orMeaning (eval existing) (eval e))
    (reads : ∀ source ∈ sources,
      eval ((conversion source).conversionExpr syslog) = some (accessor source)) :
    eval (.constructorExpr (sources.map conversion) syslog) =
      some fun msg => constructorExpr (accessor · msg) sources := by
  cases sources with
  | nil => exact none
  | cons source sources =>
    obtain ⟨head, later⟩ := List.forall_mem_cons.mp reads
    rw [List.map_cons, Expr.constructorExpr_cons, eval_foldl_or or later head,
      Meaning.or_eq_constructorExpr]

end Chain

/-- The members of a GELF message are owned strings, which only `from_value` takes. -/
def Borrows : FromGelf type → Prop
  | .none _ => True
  | .floatSecToUsec key | .hexToUint key | .syslogTimestamp key =>
    key ≠ "version" ∧ key ≠ "host" ∧ key ≠ "short_message"

instance (source : FromGelf type) : Decidable (Borrows source) :=
  match source with
  | .none _ => .isTrue trivial
  | .floatSecToUsec _ | .hexToUint _ | .syslogTimestamp _ => inferInstanceAs (Decidable (_ ∧ _))

theorem access_borrowed {field : String}
    (other : field ≠ "version" ∧ field ≠ "host" ∧ field ≠ "short_message") :
    (Expr.gelfAccessor field).access =
      some (.borrowed fun msg => Schema.gelfAccessor msg field) := by
  obtain ⟨version, host, text⟩ := other
  simp [Expr.gelfAccessor, Expr.access, Schema.gelfAccessor, version, host, text]

/-- Whether borrowed or owned, the value is the one under the key. -/
theorem access_gelfAccessor (field : String) :
    ∃ access, (Expr.gelfAccessor field).access = some access ∧
      access.get = fun msg => Schema.gelfAccessor msg field := by
  by_cases member : field = "version" ∨ field = "host" ∨ field = "short_message"
  · rcases member with rfl | rfl | rfl <;> exact ⟨_, rfl, rfl⟩
  · simp only [not_or] at member
    exact ⟨_, access_borrowed member, rfl⟩

theorem evalGelf_mapConverter (env : Environment) (converter : Converter) {key : String}
    (other : key ≠ "version" ∧ key ≠ "host" ∧ key ≠ "short_message") :
    (Expr.mapConverter converter (.gelfAccessor key)).evalGelf env .u64 =
      some fun msg => mapTranspose (converter.apply env) (Schema.gelfAccessor msg key) := by
  simp only [Expr.evalGelf, access_borrowed other]

theorem evalGelf_mapFromValue (env : Environment) (type : FieldType) (key : String) :
    (Expr.mapFromValue (.gelfAccessor key)).evalGelf env type = some fun msg =>
      mapTranspose (fun val => FromGelf.convert.liftExcept (convertNone type val))
        (Schema.gelfAccessor msg key) := by
  obtain ⟨access, found, get⟩ := access_gelfAccessor key
  simp only [Expr.evalGelf, found, get, Option.map_some]

theorem mapTranspose_gelfExpr (env : Environment) (msg : GELFMessage) (source : FromGelf type) :
    mapTranspose (source.convert env) (Schema.gelfAccessor msg source.key) =
      gelfExpr env msg source := by
  rw [gelfExpr]
  cases Schema.gelfAccessor msg source.key <;> rfl

theorem evalGelf_conversionExpr (env : Environment) {source : FromGelf type}
    (borrows : Borrows source) :
    ((gelfConversion source).conversionExpr false).evalGelf env type =
      some fun msg => gelfExpr env msg source := by
  simp only [← mapTranspose_gelfExpr]
  cases source with
  | none key => exact evalGelf_mapFromValue env type key
  | floatSecToUsec key => exact evalGelf_mapConverter env .floatSecToUsec borrows
  | hexToUint key => exact evalGelf_mapConverter env .hexToUint borrows
  | syslogTimestamp key => exact evalGelf_mapConverter env .syslogTimestamp borrows

theorem evalSyslog_conversionExpr (env : Environment) (source : FromSyslog type) :
    ((syslogConversion source).conversionExpr true).evalSyslog env type =
      some fun msg => syslogExpr env msg source := by
  cases source with
  | none field => cases field <;> rfl
  | dateTimeToUsec => rfl

/-- A struct literal whose fields mean what their rows say builds the record. -/
theorem evalConstructor_build
    {eval : (type : FieldType) → Expr → Option (Meaning Message type.Carrier)}
    {value : Message → (field : Field) → Conversion field.Value} {expr : Field → Expr}
    {fields : List Field}
    (reads : ∀ field ∈ fields,
      eval field.storageType.fieldType (expr field) = some fun msg => value msg field) :
    evalConstructor eval fields (fields.map fun field => (field.name, expr field)) =
      some fun msg => Record.build (value msg) fields := by
  induction fields with
  | nil => rfl
  | cons field fields ih =>
    obtain ⟨head, later⟩ := List.forall_mem_cons.mp reads
    rw [List.map_cons, evalConstructor, if_pos rfl, head, ih later]
    rfl

/-- The macro chooses the accessor that the type and the format of a field ask for. -/
theorem text_displayAccessor (timestampText : TimestampText)
    {formats : Finmap fun _ : String => FormatOption} {name : String}
    {format : Option FormatOption} (same : formats.lookup name = format) (type : TantivyType)
    (value : type.fieldType.Carrier) :
    (displayAccessor formats name type).text timestampText type.fieldType value =
      some (displayText timestampText format type value) := by
  unfold displayAccessor displayText
  cases type with
  | string | text | timestamp | fastTimestamp => rfl
  | u64 | i64 =>
    simp only [same]
    cases format with
    | none => rfl
    | some option => cases option <;> rfl

theorem run_displayAccessor (timestampText : TimestampText)
    {formats : Finmap fun _ : String => FormatOption} {field : Field}
    (same : formats.lookup field.name = field.format) (value : field.Value)
    (hashmap : DisplayMap) :
    (displayAccessor formats field.name field.storageType).run timestampText field value hashmap =
      some (insertText timestampText field value hashmap) := by
  cases value with
  | none => rfl
  | some value => rw [Accessor.run, text_displayAccessor timestampText same]; rfl

theorem runDisplay_insertTexts (timestampText : TimestampText)
    {formats : Finmap fun _ : String => FormatOption} {fields : List Field}
    (same : ∀ field ∈ fields, formats.lookup field.name = field.format)
    (record : Record Field.Value fields) (hashmap : DisplayMap) :
    runDisplay timestampText record
        (fields.map fun field => (field.name, displayAccessor formats field.name field.storageType))
        hashmap = some (insertTexts timestampText record hashmap) := by
  induction record generalizing hashmap with
  | nil => rfl
  | cons value rest ih =>
    obtain ⟨head, later⟩ := List.forall_mem_cons.mp same
    rw [List.map_cons, runDisplay, if_pos rfl, run_displayAccessor timestampText head, insertTexts]
    exact ih later _

theorem derive_declare (fields : List Field) : deriveYaffleSchema (fields.map declare) = some
    { gelfConstructExprs := fields.map fun field =>
        (field.name, .constructorExpr (field.fromGelf.map gelfConversion) false)
      syslogConstructExprs := fields.map fun field =>
        (field.name, .constructorExpr (field.fromSyslog.map syslogConversion) true)
      quickwitDocumentExprs := fields.map fun field => fieldMapping field.name field.storageType
      toDisplayStmts := fields.map fun field =>
        (field.name, displayAccessor (declaredFormats fields) field.name field.storageType) } := by
  rw [deriveYaffleSchema, scanFields_declare, Option.bind_eq_bind, Option.bind_some]
  simp only [List.map_map]
  rfl

end Correct

theorem schema_borrows : ∀ field ∈ schema, ∀ source ∈ field.fromGelf, Borrows source := by
  decide

end Yaffle.Macros

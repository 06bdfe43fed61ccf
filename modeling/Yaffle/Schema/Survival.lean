import Yaffle.Schema.Convert

/-! When `from_gelf` and `from_syslog` return instead of panicking: the only panic
is the conversion of an instant to nanoseconds. -/
namespace Yaffle.Schema
open Chrono Json Gelf Syslog Fallible

/-- The first of the three forms that reads the text of `_SYSLOG_TIMESTAMP`. -/
def syslogInstant (env : Environment) (s : String) : Option DateTime :=
  (env.parseFromRfc3339 (trim s)).or ((env.parseFromRfc2822 (trim s)).or
    ((env.parseFromStr (formatYear env.year ++ " " ++ trim s)).map NaiveDateTime.toUtc))

theorem lift_survives (m : Exec α) : Survives (liftM m : Conversion α) ↔ ∃ a, m = .ok a := by
  cases m with
  | ok a => exact iff_of_true ⟨_, rfl⟩ ⟨a, rfl⟩
  | error panic =>
    refine iff_of_false ?_ (by simp)
    rintro ⟨_, returned⟩
    cases returned

theorem lift_accepts {m : Exec α} {a : α} : Accepts (liftM m : Conversion α) a ↔ m = .ok a := by
  cases m with
  | ok b => exact accepts_pure_iff.trans (by simp)
  | error panic =>
    refine iff_of_false ?_ (by simp)
    rintro ⟨⟩

theorem not_rejects_lift (m : Exec α) : ¬ Rejects (liftM m : Conversion α) := by
  rintro ⟨_, rejected⟩
  cases m <;> cases rejected

/-- Whatever is made of the nanoseconds, only reading them can panic. -/
theorem timestampNanos_bind_ok (overflowChecks : Bool) (dt : DateTime) (f : Int → UInt64) :
    (∃ usec, (dt.timestampNanos overflowChecks >>= fun nanos => .ok (f nanos)) = .ok usec) ↔
      dt.Convertible overflowChecks := by
  rw [← DateTime.timestampNanos_ok]
  simp only [Exec.bind_eq_ok]
  constructor
  · rintro ⟨_, nanos, read, _⟩
    exact ⟨nanos, read⟩
  · rintro ⟨nanos, read⟩
    exact ⟨f nanos, nanos, read, rfl⟩

theorem timestampUsec_ok (env : Environment) (dt : DateTime) :
    (∃ usec, timestampUsec env dt = .ok usec) ↔ dt.Convertible env.overflowChecks :=
  timestampNanos_bind_ok env.overflowChecks dt fun nanos => UInt64.ofInt (nanos.tdiv 1000)

theorem convertDatetimeToUsec_ok (env : Environment) (dt : DateTime) :
    (∃ usec, convertDatetimeToUsec env dt = .ok usec) ↔ dt.Convertible env.overflowChecks :=
  timestampNanos_bind_ok env.overflowChecks dt fun nanos => UInt64.ofInt nanos / 1000

theorem convertSyslogTimestamp_string (env : Environment) (s : String) :
    convertSyslogTimestamp env (.string s) =
      match syslogInstant env s with
      | some dt => (timestampUsec env dt : Conversion UInt64)
      | none => throw (.parseTimestamp s) := by
  rw [convertSyslogTimestamp, syslogInstant]
  cases env.parseFromRfc3339 (trim s) with
  | some dt => rfl
  | none =>
    cases env.parseFromRfc2822 (trim s) with
    | some dt => rfl
    | none => cases env.parseFromStr (formatYear env.year ++ " " ++ trim s) <;> rfl

/-- The instant that the value names, when it names one, can be converted. -/
def TimestampFits (env : Environment) (val : Value) : Prop :=
  ∀ s dt, val = .string s → syslogInstant env s = some dt → dt.Convertible env.overflowChecks

theorem convertSyslogTimestamp_survives (env : Environment) (val : Value) :
    (convertSyslogTimestamp env val).Survives ↔ TimestampFits env val := by
  unfold TimestampFits
  cases val with
  | string s =>
    rw [convertSyslogTimestamp_string]
    cases named : syslogInstant env s with
    | none =>
      refine iff_of_true ⟨_, rfl⟩ ?_
      rintro s dt same named'
      cases same
      rw [named] at named'
      contradiction
    | some dt =>
      refine (lift_survives _).trans ((timestampUsec_ok env dt).trans ⟨?_, fun fits => ?_⟩)
      · rintro fits s dt' same named'
        cases same
        rw [named] at named'
        cases named'
        exact fits
      · exact fits s dt rfl named
  | _ => exact iff_of_true ⟨_, rfl⟩ (by rintro _ _ ⟨⟩)

def FromGelf.isTimestamp : FromGelf type → Bool
  | .syslogTimestamp _ => true
  | _ => false

def FromSyslog.isDate : FromSyslog type → Bool
  | .none _ => false
  | .dateTimeToUsec => true

theorem convert_survives (env : Environment) {source : FromGelf type}
    (other : source.isTimestamp = false) (val : Value) : (source.convert env val).Survives := by
  cases source with
  | none key => exact ⟨_, rfl⟩
  | floatSecToUsec key => exact ⟨_, rfl⟩
  | hexToUint key => exact ⟨_, rfl⟩
  | syslogTimestamp key => contradiction

section ConstructorExpr
variable {accessor : σ → Conversion (Option α)}

theorem constructorExpr_survives (sources : List σ)
    (safe : ∀ source ∈ sources, (accessor source).Survives) :
    (constructorExpr accessor sources).Survives := by
  induction sources with
  | nil => exact survives_pure _
  | cons source sources ih =>
    have later := ih fun other member => safe other (List.mem_cons_of_mem _ member)
    rw [constructorExpr, survives_bind]
    refine (survives_iff.mp (safe source List.mem_cons_self)).imp_right ?_
    rintro ⟨a, accepted⟩
    refine ⟨a, accepted, survives_bind.mpr ((survives_iff.mp later).imp_right ?_)⟩
    rintro ⟨b, found⟩
    exact ⟨b, found, survives_pure _⟩

/-- The arguments of `.or` are all evaluated, so any of them can reject the field. -/
theorem constructorExpr_rejects (sources : List σ)
    (safe : ∀ source ∈ sources, (accessor source).Survives) :
    (constructorExpr accessor sources).Rejects ↔ ∃ source ∈ sources, (accessor source).Rejects := by
  induction sources with
  | nil => simp [constructorExpr]
  | cons source sources ih =>
    have later := ih fun other member => safe other (List.mem_cons_of_mem _ member)
    have rest (first : Option α) : (do
        let later ← constructorExpr accessor sources
        pure (first.or later) : Conversion (Option α)).Rejects ↔
          (constructorExpr accessor sources).Rejects := by
      rw [rejects_bind]
      simp only [not_rejects_pure, and_false, exists_false, or_false]
    rw [constructorExpr, rejects_bind]
    simp only [rest, later, exists_and_right, List.mem_cons, exists_eq_or_imp]
    rcases survives_iff.mp (safe source List.mem_cons_self) with rejected | accepted
    · exact iff_of_true (.inl rejected) (.inl rejected)
    · exact or_congr_right (and_iff_right accepted)

theorem constructorExpr_singleton (source : σ) :
    (constructorExpr accessor [source]).Survives ↔ (accessor source).Survives := by
  rw [constructorExpr, survives_bind]
  simp only [constructorExpr, pure_bind, survives_pure, and_true, ← survives_iff]

end ConstructorExpr

theorem gelfExpr_survives (env : Environment) (msg : GELFMessage) (source : FromGelf type) :
    (gelfExpr env msg source).Survives ↔
      ∀ val, gelfAccessor msg source.key = some val → (source.convert env val).Survives := by
  unfold gelfExpr
  cases gelfAccessor msg source.key with
  | none => simp
  | some val =>
    rw [survives_bind]
    simp only [survives_pure, and_true, Option.some.injEq, forall_eq', ← survives_iff]

theorem gelfExpr_rejects (env : Environment) (msg : GELFMessage) (source : FromGelf type) :
    (gelfExpr env msg source).Rejects ↔
      ∃ val, gelfAccessor msg source.key = some val ∧ (source.convert env val).Rejects := by
  unfold gelfExpr
  cases gelfAccessor msg source.key with
  | none => simp
  | some val =>
    rw [rejects_bind]
    simp only [not_rejects_pure, and_false, exists_false, or_false, Option.some.injEq,
      exists_eq_left']

/-- The fields that are evaluated before the syslog timestamp. -/
def earlierFields : List Field := schema.takeWhile fun field => field.name ≠ "syslog_timestamp"

def laterFields : List Field := schema.drop (earlierFields.length + 1)

theorem schema_split : schema = earlierFields ++ syslogTimestampField :: laterFields := rfl

theorem others_not_timestamp : ∀ field ∈ earlierFields ++ laterFields,
    ∀ source ∈ field.fromGelf, source.isTimestamp = false := by
  decide

theorem gelfField_survives (env : Environment) (msg : GELFMessage) {field : Field}
    (other : field ∈ earlierFields ++ laterFields) : (gelfField env msg field).Survives := by
  refine constructorExpr_survives _ fun source member => (gelfExpr_survives env msg source).mpr ?_
  exact fun val _ => convert_survives env (others_not_timestamp field other source member) val

theorem gelfField_rejects (env : Environment) (msg : GELFMessage) {field : Field}
    (other : field ∈ earlierFields ++ laterFields) :
    (gelfField env msg field).Rejects ↔ ∃ source ∈ field.fromGelf,
      ∃ val, gelfAccessor msg source.key = some val ∧ (source.convert env val).Rejects := by
  rw [gelfField, constructorExpr_rejects]
  · simp only [gelfExpr_rejects]
  · intro source member
    refine (gelfExpr_survives env msg source).mpr fun val _ => ?_
    exact convert_survives env (others_not_timestamp field other source member) val

/-- Some key read before `_SYSLOG_TIMESTAMP` has a value that its conversion rejects. -/
def RejectedEarlier (env : Environment) (msg : GELFMessage) : Prop :=
  ∃ field ∈ earlierFields, ∃ source ∈ field.fromGelf,
    ∃ val, gelfAccessor msg source.key = some val ∧ (source.convert env val).Rejects

theorem syslogTimestampField_survives (env : Environment) (msg : GELFMessage) :
    (gelfField env msg syslogTimestampField).Survives ↔
      ∀ val, msg.other.lookup "_SYSLOG_TIMESTAMP" = some val → TimestampFits env val := by
  have accessor : gelfAccessor msg "_SYSLOG_TIMESTAMP" = msg.other.lookup "_SYSLOG_TIMESTAMP" := rfl
  have one : (gelfField env msg syslogTimestampField).Survives ↔
      (gelfExpr env msg (.syslogTimestamp "_SYSLOG_TIMESTAMP")).Survives :=
    constructorExpr_singleton _
  rw [one, gelfExpr_survives, FromGelf.key, accessor]
  simp only [FromGelf.convert, convertSyslogTimestamp_survives]

theorem fromGelf_survives (env : Environment) (msg : GELFMessage) :
    (fromGelf env msg).Survives ↔ RejectedEarlier env msg ∨
      ∀ val, msg.other.lookup "_SYSLOG_TIMESTAMP" = some val → TimestampFits env val := by
  have earlier {field : Field} (member : field ∈ earlierFields) :=
    List.mem_append_left laterFields member
  rw [fromGelf, Record.build_survives_iff schema_split
    (fun field member => gelfField_survives env msg (earlier member))
    (fun field member => gelfField_survives env msg (List.mem_append_right _ member)),
    syslogTimestampField_survives]
  refine or_congr_left (exists_congr fun field => and_congr_right fun member => ?_)
  exact gelfField_rejects env msg (earlier member)

theorem syslogExpr_survives (env : Environment) (msg : SyslogMessage) {source : FromSyslog type}
    (plain : source.isDate = false) : (syslogExpr env msg source).Survives := by
  cases source with
  | none field => exact survives_pure _
  | dateTimeToUsec => contradiction

/-- Only the first field converts anything. -/
theorem others_not_date : ∀ field ∈ schema.drop 1, ∀ source ∈ field.fromSyslog,
    source.isDate = false := by
  decide

theorem fromSyslog_survives (env : Environment) (msg : SyslogMessage) :
    (fromSyslog env msg).Survives ↔ msg.source_timestamp.Convertible env.overflowChecks := by
  have split : schema = [] ++ sourceTimestampField :: schema.drop 1 := rfl
  have one : (syslogField env msg sourceTimestampField).Survives ↔
      (syslogExpr env msg .dateTimeToUsec).Survives :=
    constructorExpr_singleton _
  rw [fromSyslog, Record.build_survives_iff split (by simp), one, syslogExpr, survives_bind]
  · simp only [survives_pure, and_true, ← survives_iff, List.not_mem_nil, false_and, exists_false,
      false_or]
    exact (lift_survives _).trans (convertDatetimeToUsec_ok env _)
  · intro field member
    refine constructorExpr_survives _ fun source inside => ?_
    exact syslogExpr_survives env msg (others_not_date field member source inside)

end Yaffle.Schema

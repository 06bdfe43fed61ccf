import Yaffle.Core.Collections
import Yaffle.Gelf.Chain

/-! The partials table across calls: what its entries look like, and which of
them a call can look at. -/
namespace Yaffle.Gelf

/-- Every entry has room for two chunks or more, and a gap. -/
def WellFormed (partials : Partials) : Prop :=
  ∀ id entry, partials.lookup id = some entry →
    2 ≤ entry.length ∧ entry.length ≤ 255 ∧ none ∈ entry

theorem wellFormed_empty : WellFormed ∅ := by
  intro id entry found
  simp at found

theorem WellFormed.erase {partials : Partials} (formed : WellFormed partials) (id : UInt64) :
    WellFormed (partials.erase id) :=
  forall_lookup_erase formed id

theorem WellFormed.insert {partials : Partials} (formed : WellFormed partials) {id : UInt64}
    {entry : Slots} (several : 2 ≤ entry.length) (few : entry.length ≤ 255) (gap : none ∈ entry) :
    WellFormed (partials.insert id entry) :=
  forall_lookup_insert formed ⟨several, few, gap⟩

theorem assembleChunked_wellFormed {partials : Partials} {id : UInt64} {seqno count : UInt8}
    {content : Buf} {assembly : Assembly} (formed : WellFormed partials) (several : ¬ count < 2)
    (assembled : assembleChunked partials id seqno count content = .ok assembly) :
    WellFormed assembly.partials ∧ ∀ pieces, assembly.pieces = some pieces → 2 ≤ pieces.length := by
  cases assembleChunked_cases several assembled with
  | @completed entry pieces present full =>
    have size := congrArg List.length full
    rw [storePiece_length, List.length_map] at size
    refine ⟨formed.erase id, ?_⟩
    rintro _ ⟨⟩
    exact size ▸ (formed id entry present).1
  | @stored entry present gap =>
    obtain ⟨two, few, _⟩ := formed id entry present
    rw [← storePiece_length entry seqno content.toBytes] at two few
    exact ⟨formed.insert two few gap, by simp⟩
  | created absent gap =>
    have size := storePiece_length (List.replicate count.toNat none) seqno content.toBytes
    rw [List.length_replicate] at size
    have two := two_le_of_not_small several
    have few : count.toNat ≤ 255 := Nat.le_of_lt_succ count.toNat_lt
    rw [← size] at two few
    exact ⟨formed.insert two few gap, by simp⟩

/-- `parse_packet` returns on every buffer, and the table stays well formed. -/
theorem parsePacket_total (codecs : Codecs) {partials : Partials} (formed : WellFormed partials)
    (buf : Buf) : ∃ parsed, parsePacket codecs partials buf = .ok parsed ∧
      WellFormed parsed.partials := by
  generalize size : partials.keys.card = n
  induction n using Nat.strong_induction_on generalizing partials buf with
  | _ n ih =>
    subst size
    obtain ⟨result, settled⟩ | ⟨id, seqno, count, content, classified, several⟩ :=
      idle_or_chunk codecs buf
    · exact ⟨_, settled partials, formed⟩
    · obtain ⟨assembly, assembled⟩ := assembleChunked_total partials id seqno count content
      obtain ⟨formed, two⟩ := assembleChunked_wellFormed formed several assembled
      rw [parsePacket_chunk classified several assembled]
      cases complete : assembly.pieces with
      | none => exact ⟨_, rfl, formed⟩
      | some pieces =>
        obtain ⟨chain, chained, _⟩ := chainPieces_ok pieces (two pieces complete)
        have fewer := assembleChunked_shrinks several assembled complete
        obtain ⟨inner, parsed, formed⟩ := ih _ fewer formed chain rfl
        exact ⟨inner.after assembly.effects, by simp [chained, parsed], formed⟩

/-- `assemble_chunked` depends on the entry of its id, and changes no other. -/
theorem assembleChunked_local {partials : Partials} {id : UInt64} {seqno count : UInt8}
    {content : Buf} {assembly : Assembly}
    (assembled : assembleChunked partials id seqno count content = .ok assembly)
    {other : Partials} (agree : other.lookup id = partials.lookup id) :
    ∃ after, assembleChunked other id seqno count content =
        .ok ⟨assembly.pieces, after, assembly.effects⟩ ∧
      after.lookup id = assembly.partials.lookup id ∧
      ∀ key, key ≠ id → after.lookup key = other.lookup key := by
  have entries : entryOrInsert other id count = entryOrInsert partials id count := by
    simp only [entryOrInsert, agree]
  simp only [assembleChunked_eq, entries] at assembled ⊢
  split at assembled
  · rename_i gap
    cases assembled
    rw [if_pos gap]
    refine ⟨_, rfl, ?_, ?_⟩
    · simp only [Finmap.lookup_insert]
    · intro key other
      exact Finmap.lookup_insert_of_ne _ other
  · rename_i full
    cases assembled
    rw [if_neg full]
    refine ⟨_, rfl, ?_, ?_⟩
    · simp only [Finmap.lookup_erase]
    · intro key other
      exact Finmap.lookup_erase_ne other

theorem assembleChunked_frame {partials : Partials} {id : UInt64} {seqno count : UInt8}
    {content : Buf} {assembly : Assembly}
    (assembled : assembleChunked partials id seqno count content = .ok assembly) :
    ∀ key, key ≠ id → assembly.partials.lookup key = partials.lookup key := by
  obtain ⟨after, again, _, frame⟩ := assembleChunked_local assembled rfl
  have same := congrArg Assembly.partials (Except.ok.inj (assembled.symm.trans again))
  exact same ▸ frame

theorem assembleChunked_touches {partials : Partials} {id : UInt64} {seqno count : UInt8}
    {content : Buf} {assembly : Assembly} (several : ¬ count < 2)
    (assembled : assembleChunked partials id seqno count content = .ok assembly) :
    touchedIds assembly.effects = [id] := by
  cases assembleChunked_cases several assembled <;> rfl

theorem assembleChunked_logs {partials : Partials} {id : UInt64} {seqno count : UInt8}
    {content : Buf} {assembly : Assembly} (several : ¬ count < 2)
    (assembled : assembleChunked partials id seqno count content = .ok assembly) :
    .chunk id seqno count content.toBytes ∈ assembly.effects := by
  cases assembleChunked_cases several assembled <;> exact List.mem_cons_self

theorem touchedIds_append (before after : List Effect) :
    touchedIds (before ++ after) = touchedIds before ++ touchedIds after :=
  List.filterMap_append

theorem touchedIds_after {partials : Partials} {id : UInt64} {seqno count : UInt8} {content : Buf}
    {assembly : Assembly} (several : ¬ count < 2)
    (assembled : assembleChunked partials id seqno count content = .ok assembly) (inner : Parsed) :
    touchedIds (inner.after assembly.effects).effects = id :: touchedIds inner.effects := by
  rw [Parsed.after, touchedIds_append, assembleChunked_touches several assembled]
  rfl

/-- What the rest of a chain looks at agrees, if it agreed before the chunk. -/
theorem assembleChunked_shared {partials : Partials} {id : UInt64} {seqno count : UInt8}
    {content : Buf} {assembly : Assembly}
    (assembled : assembleChunked partials id seqno count content = .ok assembly)
    {other : Partials} {later : List UInt64}
    (agree : ∀ key ∈ id :: later, other.lookup key = partials.lookup key) :
    ∃ after, assembleChunked other id seqno count content =
        .ok ⟨assembly.pieces, after, assembly.effects⟩ ∧
      after.lookup id = assembly.partials.lookup id ∧
      (∀ key, key ≠ id → after.lookup key = other.lookup key) ∧
      ∀ key ∈ later, after.lookup key = assembly.partials.lookup key := by
  obtain ⟨after, again, here, frame⟩ := assembleChunked_local assembled (agree id (by simp))
  refine ⟨after, again, here, frame, ?_⟩
  intro key member
  by_cases same : key = id
  · exact same ▸ here
  · rw [frame key same, agree key (List.mem_cons_of_mem _ member),
      assembleChunked_frame assembled key same]

/-- A call depends on the entries of the ids that it reaches, and changes no
other: on any table with the same entries there it does the same. -/
theorem parsePacket_local {codecs : Codecs} {partials : Partials} {buf : Buf} {parsed : Parsed}
    (called : parsePacket codecs partials buf = .ok parsed) {other : Partials}
    (agree : ∀ id ∈ touchedIds parsed.effects, other.lookup id = partials.lookup id) :
    ∃ after, parsePacket codecs other buf = .ok ⟨parsed.result, after, parsed.effects⟩ ∧
      (∀ id ∈ touchedIds parsed.effects, after.lookup id = parsed.partials.lookup id) ∧
      ∀ id ∉ touchedIds parsed.effects, after.lookup id = other.lookup id := by
  revert other agree
  refine parsePacket_induct (P := fun partials buf parsed => ∀ {other : Partials},
    (∀ id ∈ touchedIds parsed.effects, other.lookup id = partials.lookup id) →
    ∃ after, parsePacket codecs other buf = .ok ⟨parsed.result, after, parsed.effects⟩ ∧
      (∀ id ∈ touchedIds parsed.effects, after.lookup id = parsed.partials.lookup id) ∧
      ∀ id ∉ touchedIds parsed.effects, after.lookup id = other.lookup id) ?_ ?_ ?_
    partials buf parsed called
  · intro partials buf result idle other _
    refine ⟨other, idle other, ?_, fun id _ => rfl⟩
    intro id member
    simp [touchedIds] at member
  · intro partials buf id seqno count content assembly classified several assembled incomplete other
      agree
    have touched := assembleChunked_touches several assembled
    rw [touched] at agree ⊢
    obtain ⟨after, again, here, frame⟩ := assembleChunked_local assembled (agree id (by simp))
    refine ⟨after, ?_, ?_, ?_⟩
    · rw [parsePacket_chunk classified several again]
      simp only [incomplete]
    · simpa using here
    · simpa using frame
  · intro partials buf id seqno count content assembly pieces chain inner classified several
      assembled complete chained calledInner ih other agree
    rw [touchedIds_after several assembled] at agree ⊢
    obtain ⟨middle, again, here, frame, shared⟩ := assembleChunked_shared assembled agree
    obtain ⟨after, parsed, inside, outside⟩ := ih shared
    refine ⟨after, ?_, ?_, ?_⟩
    · rw [parsePacket_chunk classified several again]
      simp only [complete, chained, parsed, Exec.ok_bind, Exec.pure_eq_ok, Parsed.after]
    · intro key member
      by_cases later : key ∈ touchedIds inner.effects
      · exact inside key later
      · obtain rfl : key = id := (List.mem_cons.mp member).resolve_right later
        obtain ⟨_, same, _, kept⟩ := @ih assembly.partials (fun _ _ => rfl)
        have same := congrArg Parsed.partials (Except.ok.inj (calledInner.symm.trans same))
        rw [outside key later, here, Parsed.after, same, kept key later]
    · intro key untouched
      rw [List.mem_cons, not_or] at untouched
      rw [outside key untouched.2, frame key untouched.1]

/-- What a call completes depends on the entries of the ids that it reaches. -/
theorem completes_local {codecs : Codecs} {partials : Partials} {buf : Buf} {parsed : Parsed}
    (called : parsePacket codecs partials buf = .ok parsed) {other : Partials}
    (agree : ∀ id ∈ touchedIds parsed.effects, other.lookup id = partials.lookup id)
    {id : UInt64} {pieces : List Bytes} (completes : Completes other buf id pieces) :
    Completes partials buf id pieces := by
  revert other agree
  refine parsePacket_induct (P := fun partials buf parsed => ∀ {other : Partials},
    (∀ id ∈ touchedIds parsed.effects, other.lookup id = partials.lookup id) →
      Completes other buf id pieces → Completes partials buf id pieces) ?_ ?_ ?_
    partials buf parsed called
  · rintro partials buf result idle other _ (⟨classified, several, _⟩ | ⟨classified, several, _⟩)
    · exact absurd (not_chunk_of_idle idle classified) several
    · exact absurd (not_chunk_of_idle idle classified) several
  · intro partials buf id seqno count content assembly classified several assembled incomplete other
      agree completes
    rw [assembleChunked_touches several assembled] at agree
    obtain ⟨after, again, _⟩ := assembleChunked_local assembled (agree id (by simp))
    obtain ⟨done, complete, _⟩ := (completes_chunk classified several again _ _).mp completes
    simp [incomplete] at complete
  · intro partials buf id seqno count content assembly pieces chain inner classified several
      assembled complete chained _ ih other agree completes
    rw [touchedIds_after several assembled] at agree
    obtain ⟨middle, again, _, _, shared⟩ := assembleChunked_shared assembled agree
    obtain ⟨done, same, here | ⟨rest, rechained, inside⟩⟩ :=
      (completes_chunk classified several again _ _).mp completes
    · exact (completes_chunk classified several assembled _ _).mpr ⟨done, same, .inl here⟩
    · cases complete.symm.trans same
      cases chained.symm.trans rechained
      exact (completes_chunk classified several assembled _ _).mpr
        ⟨pieces, complete, .inr ⟨chain, chained, ih shared inside⟩⟩

end Yaffle.Gelf

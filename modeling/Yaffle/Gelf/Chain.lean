import Yaffle.Gelf.Packet

/-! What one call of `parse_packet` can do. A datagram is followed by the
payloads that it completes; only the last chunk of this chain stores anything. -/
namespace Yaffle.Gelf

theorem classify_total (buf : Buf) : ∃ classified, classify buf = .ok classified := by
  obtain ⟨more, whole⟩ := buf.bytes_prefix
  rw [classify_eq]
  split
  · rename_i first second rest visible
    split
    · have long : 2 ≤ buf.toBytes.length := by simp [← whole, visible]
      obtain ⟨body, advanced, _⟩ := buf.advance_ok 2 long
      rw [advanced, Exec.ok_bind]
      split
      · exact ⟨_, rfl⟩
      · rename_i enough
        rw [Buf.remaining_eq_length, Nat.not_lt] at enough
        obtain ⟨content, copied, _⟩ := body.copyToSlice_ok 10 enough
        have header : (body.toBytes.take 10).length = 10 := by simpa using enough
        rw [copied]
        simp [List.getElem?_eq_getElem (show 8 < (body.toBytes.take 10).length by omega),
          List.getElem?_eq_getElem (show 9 < (body.toBytes.take 10).length by omega)]
    · split
      · exact ⟨_, rfl⟩
      · split <;> exact ⟨_, rfl⟩
  · exact ⟨_, rfl⟩

/-- The first non-empty piece: all that `bytes()` shows of a chain. -/
def firstSegment (pieces : List Bytes) : Bytes := (pieces.find? (fun piece => piece ≠ [])).getD []

theorem firstSegment_append (done : List Bytes) (item : Bytes) :
    firstSegment (done ++ [item]) = if done.flatten = [] then item else firstSegment done := by
  induction done with
  | nil => cases item <;> simp [firstSegment]
  | cons piece rest ih =>
    cases piece with
    | nil => simpa [firstSegment] using ih
    | cons byte more => simp [firstSegment]

theorem chain_foldl (rest done : List Bytes) (chain : Buf) (whole : chain.toBytes = done.flatten)
    (visible : chain.bytes = firstSegment done) :
    (rest.foldl (fun chain item => .chain chain (.slice item)) chain).toBytes =
        (done ++ rest).flatten ∧
      (rest.foldl (fun chain item => .chain chain (.slice item)) chain).bytes =
        firstSegment (done ++ rest) := by
  induction rest generalizing done chain with
  | nil => simpa using ⟨whole, visible⟩
  | cons item rest ih =>
    have step := ih (done ++ [item]) (.chain chain (.slice item)) (by simp [whole]) (by
      rw [firstSegment_append, Buf.bytes_chain, whole, visible, Buf.bytes_slice])
    simpa only [List.foldl_cons, List.append_assoc, List.singleton_append] using step

theorem chainPieces_ok (pieces : List Bytes) (several : 2 ≤ pieces.length) :
    ∃ chain, chainPieces pieces = .ok chain ∧ chain.toBytes = pieces.flatten ∧
      chain.bytes = firstSegment pieces := by
  match pieces, several with
  | first :: second :: rest, _ =>
    have whole : (Buf.chain (.slice first) (.slice second)).toBytes = [first, second].flatten := by
      simp
    have visible : (Buf.chain (.slice first) (.slice second)).bytes =
        firstSegment ([first] ++ [second]) := by
      rw [firstSegment_append]
      cases first <;> simp [firstSegment]
    exact ⟨_, rfl, chain_foldl rest [first, second] _ whole visible⟩

theorem firstSegment_leads (pieces : List Bytes) : firstSegment pieces <+: pieces.flatten := by
  induction pieces with
  | nil => exact List.prefix_rfl
  | cons piece rest ih =>
    cases piece with
    | nil => simpa [firstSegment] using ih
    | cons byte more => simp [firstSegment]

/-- The three outcomes of `assemble_chunked` on a chunk with a real count. -/
inductive AssemblyCase (partials : Partials) (id : UInt64) (seqno count : UInt8)
    (content : Bytes) : Assembly → Prop
  | completed (present : partials.lookup id = some entry)
      (full : storePiece entry seqno content = pieces.map some) :
      AssemblyCase partials id seqno count content
        ⟨some pieces, partials.erase id, [.chunk id seqno count content]⟩
  | stored (present : partials.lookup id = some entry)
      (gap : none ∈ storePiece entry seqno content) :
      AssemblyCase partials id seqno count content
        ⟨none, partials.insert id (storePiece entry seqno content), [.chunk id seqno count content]⟩
  | created (absent : partials.lookup id = none)
      (gap : none ∈ storePiece (List.replicate count.toNat none) seqno content) :
      AssemblyCase partials id seqno count content
        ⟨none, partials.insert id (storePiece (List.replicate count.toNat none) seqno content),
          [.chunk id seqno count content, .spawnExpiry id]⟩

theorem assembleChunked_cases {partials : Partials} {id : UInt64} {seqno count : UInt8}
    {content : Buf} {assembly : Assembly} (several : ¬ count < 2)
    (called : assembleChunked partials id seqno count content = .ok assembly) :
    AssemblyCase partials id seqno count content.toBytes assembly := by
  rw [assembleChunked_eq] at called
  cases found : partials.lookup id with
  | none =>
    have gap := none_mem_storePiece_replicate (two_le_of_not_small several) seqno content.toBytes
    simp only [entryOrInsert, found, gap, if_true] at called
    cases called
    exact .created found gap
  | some entry =>
    simp only [entryOrInsert, found] at called
    split at called
    · rename_i gap
      cases called
      exact .stored found gap
    · rename_i full
      cases called
      exact .completed found (eq_map_some_of_full full)

theorem assembleChunked_filled {partials : Partials} {id : UInt64} {entry : Slots}
    {pieces : List Bytes} (count : UInt8) (present : partials.lookup id = some entry)
    (full : storePiece entry seqno content.toBytes = pieces.map some) :
    assembleChunked partials id seqno count content =
      .ok ⟨some pieces, partials.erase id, [.chunk id seqno count content.toBytes]⟩ := by
  simp [assembleChunked_eq, entryOrInsert, present, full, List.reduceOption]

theorem assembleChunked_total (partials : Partials) (id : UInt64) (seqno count : UInt8)
    (content : Buf) : ∃ assembly, assembleChunked partials id seqno count content = .ok assembly := by
  simp only [assembleChunked_eq]
  split <;> exact ⟨_, rfl⟩

/-- The first chunk of an id is stored in an entry of its own. -/
theorem parsePacket_first_chunk (codecs : Codecs) {partials : Partials} {buf : Buf}
    {id : UInt64} (classified : classify buf = .ok (.ok (.chunk id seqno count content)))
    (several : ¬ count < 2) (absent : partials.lookup id = none) :
    parsePacket codecs partials buf = .ok ⟨.ok none,
      partials.insert id (storePiece (List.replicate count.toNat none) seqno content.toBytes),
      [.chunk id seqno count content.toBytes, .spawnExpiry id]⟩ := by
  obtain ⟨assembly, assembled⟩ := assembleChunked_total partials id seqno count content
  rw [parsePacket_chunk classified several assembled]
  cases assembleChunked_cases several assembled with
  | created => rfl
  | completed present | stored present => simp [absent] at present

/-- The chain of a payload without chunk magic is decoded as far as it can be seen. -/
theorem parsePacket_chained (codecs : Codecs) (partials : Partials) {pieces : List Bytes}
    (several : 2 ≤ pieces.length) (plain : ¬ [0x1e, 0x0f] <+: pieces.flatten) :
    ∃ chain, chainPieces pieces = .ok chain ∧ parsePacket codecs partials chain =
      .ok ⟨decodeVisible codecs (firstSegment pieces) pieces.flatten, partials, []⟩ := by
  obtain ⟨chain, chained, whole, visible⟩ := chainPieces_ok pieces several
  have plainChain : ¬ [0x1e, 0x0f] <+: chain.bytes := by
    intro magic
    apply plain
    rw [← whole]
    exact magic.trans chain.bytes_prefix
  refine ⟨chain, chained, ?_⟩
  rw [parsePacket_payload codecs partials chain plainChain, visible, whole]

/-- The last chunk of an id removes the entry and decodes the payload. -/
theorem parsePacket_last_chunk (codecs : Codecs) {partials : Partials} {buf : Buf} {id : UInt64}
    {entry : Slots} {pieces : List Bytes}
    (classified : classify buf = .ok (.ok (.chunk id seqno count content)))
    (several : ¬ count < 2) (present : partials.lookup id = some entry)
    (full : storePiece entry seqno content.toBytes = pieces.map some)
    (two : 2 ≤ pieces.length) (plain : ¬ [0x1e, 0x0f] <+: pieces.flatten) :
    parsePacket codecs partials buf =
      .ok ⟨decodeVisible codecs (firstSegment pieces) pieces.flatten, partials.erase id,
        [.chunk id seqno count content.toBytes]⟩ := by
  obtain ⟨chain, chained, decoded⟩ := parsePacket_chained codecs (partials.erase id) two plain
  rw [parsePacket_chunk classified several (assembleChunked_filled count present full)]
  simp only [chained, Exec.ok_bind, decoded, Exec.pure_eq_ok, Parsed.after, List.append_nil]

/-- Every outcome that is settled without the table. -/
theorem parsePacket_idle (codecs : Codecs) {buf : Buf}
    {classified : Except PacketError PacketType} (found : classify buf = .ok classified)
    (noChunk : ∀ id seqno count content, classified = .ok (.chunk id seqno count content) →
      count < 2) :
    ∃ result, ∀ table, parsePacket codecs table buf = .ok ⟨result, table, []⟩ := by
  cases classified with
  | error e => exact ⟨.error e, fun table => by rw [parsePacket, found]; rfl⟩
  | ok packet =>
    cases packet with
    | chunk id seqno count content =>
      have few := noChunk id seqno count content rfl
      exact ⟨.ok none, fun table => by rw [parsePacket, found]; simp [few]⟩
    | uncompressed content => exact ⟨_, fun table => by rw [parsePacket, found]; rfl⟩
    | gzipCompressed content => exact ⟨_, fun table => by rw [parsePacket, found]; rfl⟩
    | zlibCompressed content => exact ⟨_, fun table => by rw [parsePacket, found]; rfl⟩

/-- A buffer either is settled without the table or reaches `assemble_chunked`. -/
theorem idle_or_chunk (codecs : Codecs) (buf : Buf) :
    (∃ result, ∀ table, parsePacket codecs table buf = .ok ⟨result, table, []⟩) ∨
      ∃ id seqno count content, classify buf = .ok (.ok (.chunk id seqno count content)) ∧
        ¬ count < 2 := by
  obtain ⟨classified, found⟩ := classify_total buf
  by_cases chunk : ∃ id seqno count content,
      classified = .ok (.chunk id seqno count content) ∧ ¬ count < 2
  · obtain ⟨id, seqno, count, content, rfl, several⟩ := chunk
    exact .inr ⟨id, seqno, count, content, found, several⟩
  · refine .inl (parsePacket_idle codecs found ?_)
    intro id seqno count content same
    by_contra several
    exact chunk ⟨id, seqno, count, content, same, several⟩

/-- Induction along the chain of one datagram: it stops without the table, it
stops at a chunk that stays incomplete, or it goes on with a completed payload. -/
theorem parsePacket_induct {codecs : Codecs} {P : Partials → Buf → Parsed → Prop}
    (idle : ∀ partials buf result,
      (∀ table, parsePacket codecs table buf = .ok ⟨result, table, []⟩) →
      P partials buf ⟨result, partials, []⟩)
    (kept : ∀ partials buf id seqno count content assembly,
      classify buf = .ok (.ok (.chunk id seqno count content)) → ¬ count < 2 →
      assembleChunked partials id seqno count content = .ok assembly → assembly.pieces = none →
      P partials buf ⟨.ok none, assembly.partials, assembly.effects⟩)
    (nested : ∀ partials buf id seqno count content assembly pieces chain inner,
      classify buf = .ok (.ok (.chunk id seqno count content)) → ¬ count < 2 →
      assembleChunked partials id seqno count content = .ok assembly →
      assembly.pieces = some pieces →
      chainPieces pieces = .ok chain → parsePacket codecs assembly.partials chain = .ok inner →
      P assembly.partials chain inner → P partials buf (inner.after assembly.effects))
    (partials : Partials) (buf : Buf) (parsed : Parsed)
    (called : parsePacket codecs partials buf = .ok parsed) : P partials buf parsed := by
  -- Every completed payload leaves one entry fewer for the rest of the chain.
  generalize size : partials.keys.card = n
  induction n using Nat.strong_induction_on generalizing partials buf parsed with
  | _ n ih =>
    subst size
    obtain ⟨result, settled⟩ | ⟨id, seqno, count, content, classified, several⟩ :=
      idle_or_chunk codecs buf
    · cases (settled partials).symm.trans called
      exact idle partials buf result settled
    · obtain ⟨assembly, assembled⟩ := assembleChunked_total partials id seqno count content
      rw [parsePacket_chunk classified several assembled] at called
      cases complete : assembly.pieces with
      | none =>
        simp only [complete] at called
        cases called
        exact kept partials buf id seqno count content assembly classified several assembled complete
      | some pieces =>
        simp only [complete] at called
        obtain ⟨chain, chained, called⟩ := Exec.bind_eq_ok.mp called
        obtain ⟨inner, parsedInner, called⟩ := Exec.bind_eq_ok.mp called
        cases called
        have fewer := assembleChunked_shrinks several assembled complete
        exact nested partials buf id seqno count content assembly pieces chain inner classified
          several assembled complete chained parsedInner (ih _ fewer _ chain inner parsedInner rfl)

/-- The ids for which a call spawned an expiry task. -/
def spawnedIds (effects : List Effect) : List UInt64 :=
  effects.filterMap fun
    | .spawnExpiry id => some id
    | .chunk .. => none

/-- The ids of the chunks that a call handed to `assemble_chunked`. -/
def touchedIds (effects : List Effect) : List UInt64 :=
  effects.filterMap fun
    | .chunk id _ _ _ => some id
    | .spawnExpiry _ => none

/-- The packet, or a payload that it completes, brings the first chunk of an id. -/
inductive Creates : Partials → Buf → UInt64 → Prop
  | first {id : UInt64} (classified : classify buf = .ok (.ok (.chunk id seqno count content)))
      (several : ¬ count < 2) (absent : partials.lookup id = none) : Creates partials buf id
  | nested {id : UInt64} (classified : classify buf = .ok (.ok (.chunk id seqno count content)))
      (several : ¬ count < 2) (present : partials.lookup id = some entry)
      (full : storePiece entry seqno content.toBytes = pieces.map some)
      (chained : chainPieces pieces = .ok chain)
      (later : Creates (partials.erase id) chain other) : Creates partials buf other

/-- The packet, or a payload that it completes, completes an id with these pieces. -/
inductive Completes : Partials → Buf → UInt64 → List Bytes → Prop
  | last {id : UInt64} (classified : classify buf = .ok (.ok (.chunk id seqno count content)))
      (several : ¬ count < 2) (present : partials.lookup id = some entry)
      (full : storePiece entry seqno content.toBytes = pieces.map some) :
      Completes partials buf id pieces
  | nested {id : UInt64} (classified : classify buf = .ok (.ok (.chunk id seqno count content)))
      (several : ¬ count < 2) (present : partials.lookup id = some entry)
      (full : storePiece entry seqno content.toBytes = done.map some)
      (chained : chainPieces done = .ok chain)
      (later : Completes (partials.erase id) chain other pieces) :
      Completes partials buf other pieces

section Inversion
variable {partials : Partials} {buf content : Buf} {id : UInt64} {seqno count : UInt8}
  {assembly : Assembly}

theorem creates_chunk (classified : classify buf = .ok (.ok (.chunk id seqno count content)))
    (several : ¬ count < 2)
    (assembled : assembleChunked partials id seqno count content = .ok assembly) (other : UInt64) :
    Creates partials buf other ↔ (partials.lookup id = none ∧ other = id) ∨
      ∃ done chain, assembly.pieces = some done ∧ chainPieces done = .ok chain ∧
        Creates assembly.partials chain other := by
  constructor
  · rintro (⟨again, _, absent⟩ | ⟨again, _, present, full, chained, later⟩)
    · cases classified.symm.trans again
      exact .inl ⟨absent, rfl⟩
    · cases classified.symm.trans again
      cases assembled.symm.trans (assembleChunked_filled count present full)
      exact .inr ⟨_, _, rfl, chained, later⟩
  · rintro (⟨absent, rfl⟩ | ⟨done, chain, complete, chained, later⟩)
    · exact .first classified several absent
    · cases assembleChunked_cases several assembled with
      | completed present full =>
        cases complete
        exact .nested classified several present full chained later
      | stored | created => contradiction

theorem completes_chunk (classified : classify buf = .ok (.ok (.chunk id seqno count content)))
    (several : ¬ count < 2)
    (assembled : assembleChunked partials id seqno count content = .ok assembly) (other : UInt64)
    (pieces : List Bytes) :
    Completes partials buf other pieces ↔ ∃ done, assembly.pieces = some done ∧
      ((other = id ∧ pieces = done) ∨
        ∃ chain, chainPieces done = .ok chain ∧ Completes assembly.partials chain other pieces) := by
  constructor
  · rintro (⟨again, _, present, full⟩ | ⟨again, _, present, full, chained, later⟩)
    · cases classified.symm.trans again
      cases assembled.symm.trans (assembleChunked_filled count present full)
      exact ⟨_, rfl, .inl ⟨rfl, rfl⟩⟩
    · cases classified.symm.trans again
      cases assembled.symm.trans (assembleChunked_filled count present full)
      exact ⟨_, rfl, .inr ⟨_, chained, later⟩⟩
  · rintro ⟨done, complete, here | ⟨chain, chained, later⟩⟩
    · obtain ⟨rfl, rfl⟩ := here
      cases assembleChunked_cases several assembled with
      | completed present full =>
        cases complete
        exact .last classified several present full
      | stored | created => contradiction
    · cases assembleChunked_cases several assembled with
      | completed present full =>
        cases complete
        exact .nested classified several present full chained later
      | stored | created => contradiction

end Inversion

/-- A buffer that is settled without the table is no chunk with a real count. -/
theorem not_chunk_of_idle {codecs : Codecs} {buf : Buf}
    {result : Except PacketError (Option GELFMessage)}
    (idle : ∀ table, parsePacket codecs table buf = .ok ⟨result, table, []⟩) {id : UInt64}
    (classified : classify buf = .ok (.ok (.chunk id seqno count content))) : count < 2 := by
  by_contra several
  have first := parsePacket_first_chunk codecs classified several (Finmap.lookup_empty id)
  simpa using congrArg Parsed.effects (Except.ok.inj ((idle ∅).symm.trans first))

/-- The ids for which tasks are spawned are the ids that get a new entry. -/
theorem spawned_iff_creates {codecs : Codecs} {partials : Partials} {buf : Buf} {parsed : Parsed}
    (called : parsePacket codecs partials buf = .ok parsed) :
    ∀ id, id ∈ spawnedIds parsed.effects ↔ Creates partials buf id := by
  refine parsePacket_induct (P := fun partials buf parsed =>
    ∀ id, id ∈ spawnedIds parsed.effects ↔ Creates partials buf id) ?_ ?_ ?_
    partials buf parsed called
  · intro partials buf result idle id
    refine ⟨by simp [spawnedIds], ?_⟩
    rintro (⟨classified, several, _⟩ | ⟨classified, several, _, _, _, _⟩)
    · exact absurd (not_chunk_of_idle idle classified) several
    · exact absurd (not_chunk_of_idle idle classified) several
  · intro partials buf id seqno count content assembly classified several assembled incomplete other
    rw [creates_chunk classified several assembled]
    cases assembleChunked_cases several assembled with
    | completed => contradiction
    | stored present gap => simp [spawnedIds, present]
    | created absent gap => simp [spawnedIds, absent]
  · intro partials buf id seqno count content assembly pieces chain inner classified several
      assembled complete chained _ ih other
    rw [creates_chunk classified several assembled]
    cases assembleChunked_cases several assembled with
    | stored | created => contradiction
    | completed present full =>
      cases complete
      simp [Parsed.after, spawnedIds, present, chained, ← ih]

/-- A call creates at most one entry, as the last thing it does, and spawns an
expiry for that entry only. -/
theorem parsePacket_creates {codecs : Codecs} {partials : Partials} {buf : Buf} {parsed : Parsed}
    (called : parsePacket codecs partials buf = .ok parsed) :
    (spawnedIds parsed.effects = [] ∧ ∀ id ∈ parsed.partials, id ∈ partials) ∨
      ∃ id ∈ parsed.partials, spawnedIds parsed.effects = [id] ∧
        ∀ other ∈ parsed.partials, other = id ∨ other ∈ partials := by
  refine parsePacket_induct (P := fun partials _ parsed =>
    (spawnedIds parsed.effects = [] ∧ ∀ id ∈ parsed.partials, id ∈ partials) ∨
      ∃ id ∈ parsed.partials, spawnedIds parsed.effects = [id] ∧
        ∀ other ∈ parsed.partials, other = id ∨ other ∈ partials) ?_ ?_ ?_ partials buf parsed called
  · intro partials buf result _
    exact .inl ⟨rfl, fun id member => member⟩
  · intro partials buf id seqno count content assembly _ several assembled incomplete
    cases assembleChunked_cases several assembled with
    | completed present full => contradiction
    | stored present gap =>
      refine .inl ⟨rfl, fun other member => ?_⟩
      rcases Finmap.mem_insert.mp member with rfl | member
      · exact Finmap.mem_of_lookup_eq_some present
      · exact member
    | created absent gap =>
      exact .inr ⟨id, Finmap.mem_insert.mpr (.inl rfl), rfl,
        fun other member => Finmap.mem_insert.mp member⟩
  · intro partials buf id seqno count content assembly pieces chain inner _ several assembled complete
      _ _ ih
    cases assembleChunked_cases several assembled with
    | stored present gap => contradiction
    | created absent gap => contradiction
    | completed present full =>
      have earlier {other : UInt64} (member : other ∈ partials.erase id) : other ∈ partials :=
        (Finmap.mem_erase.mp member).2
      rcases ih with ⟨none, ih⟩ | ⟨created, member, one, ih⟩
      · exact .inl ⟨none, fun other member => earlier (ih other member)⟩
      · exact .inr ⟨created, member, one, fun other member => (ih other member).imp_right earlier⟩

end Yaffle.Gelf

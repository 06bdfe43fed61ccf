import Yaffle.Core.Utf8
import Yaffle.Gelf.Chain
import Yaffle.Gelf.Reassembly

/-! Chunked transport against direct transport: what the receiver makes of a
payload that was cut into chunks, for every cut and every order of arrival. -/
namespace Yaffle.Gelf
open Reassembly

/-- `parse_packet` on each datagram in turn, over one table, with no expiry between them. -/
def receive (codecs : Codecs) (partials : Partials) : List Bytes → Exec (List Parsed)
  | [] => return []
  | datagram :: rest => do
    let parsed ← parsePacket codecs partials (.slice datagram)
    let later ← receive codecs parsed.partials rest
    return parsed :: later

def toBeBytes (id : UInt64) : Bytes := BigEndian.encode 8 id.toNat

/-- The datagram that carries one chunk. -/
def chunkDatagram (id : UInt64) (seqno count : UInt8) (content : Bytes) : Bytes :=
  0x1e :: 0x0f :: (toBeBytes id ++ seqno :: count :: content)

/-- The datagram of the piece at position `i` out of `n`. -/
def pieceDatagram (id : UInt64) (n : Nat) (arrival : Bytes × Nat) : Bytes :=
  chunkDatagram id (UInt8.ofNat arrival.2) (UInt8.ofNat n) arrival.1

theorem fromBeBytes_toBeBytes (id : UInt64) : fromBeBytes (toBeBytes id) = id := by
  have fits : id.toNat < 256 ^ 8 := id.toNat_lt
  simp [fromBeBytes, toBeBytes, BigEndian.value_encode fits]

theorem classify_chunkDatagram (id : UInt64) (seqno count : UInt8) (payload : Bytes) :
    ∃ content, classify (.slice (chunkDatagram id seqno count payload)) =
      .ok (.ok (.chunk id seqno count content)) ∧ content.toBytes = payload := by
  have visible : [0x1e, 0x0f] <+: (Buf.slice (chunkDatagram id seqno count payload)).bytes :=
    ⟨toBeBytes id ++ seqno :: count :: payload, rfl⟩
  obtain ⟨content, classified, same⟩ :=
    classify_header visible (BigEndian.encode_length 8 id.toNat) rfl
  exact ⟨content, by rw [classified, ← toBeBytes, fromBeBytes_toBeBytes], same⟩

/-- The chunks that a list of arrivals carries. -/
def arrivedChunks (n : Nat) (arrivals : List (Bytes × Nat)) : Generation Bytes :=
  arrivals.map (fun arrival => ⟨arrival.2, n, arrival.1⟩)

theorem chunkOf_ofNat {n i : Nat} (few : n ≤ 255) (inside : i < n) (piece : Bytes) :
    chunkOf (UInt8.ofNat i) (UInt8.ofNat n) piece = ⟨i, n, piece⟩ := by
  simp only [chunkOf, UInt8.toNat_ofNat']
  congr 1 <;> omega

theorem ofNat_not_small {n : Nat} (several : 2 ≤ n) (few : n ≤ 255) : ¬ UInt8.ofNat n < 2 := by
  rw [UInt8.lt_iff_toNat_lt, UInt8.toNat_ofNat']
  have : n % 2 ^ 8 = n := by omega
  simp only [this, UInt8.reduceToNat]
  omega

section Run
variable (codecs : Codecs) {id : UInt64} {n : Nat}

/-- One more piece, in terms of the generation that the table stores for the id. -/
theorem parsePacket_piece {partials : Partials} {g : Generation Bytes}
    (several : 2 ≤ n) (few : n ≤ 255) (represents : partials.lookup id = stored g)
    {arrival : Bytes × Nat} (inside : arrival.2 < n) :
    ∃ effects, parsePacket codecs partials (.slice (pieceDatagram id n arrival)) =
      let g := g ++ [⟨arrival.2, n, arrival.1⟩]
      if g.Covers then do
        let chain ← chainPieces g.assembled
        let parsed ← parsePacket codecs (partials.erase id) chain
        return parsed.after effects
      else .ok ⟨.ok none, partials.insert id g.slots, effects⟩ := by
  obtain ⟨content, classified, same⟩ := classify_chunkDatagram id (UInt8.ofNat arrival.2)
    (UInt8.ofNat n) arrival.1
  obtain ⟨effects, called⟩ := assembleChunked_generation represents (UInt8.ofNat arrival.2)
    (UInt8.ofNat n) content
  rw [same, chunkOf_ofNat few inside] at called
  refine ⟨effects, ?_⟩
  by_cases covers : Generation.Covers (g ++ [⟨arrival.2, n, arrival.1⟩])
  · simp only [covers, if_true] at called ⊢
    exact parsePacket_chunk classified (ofNat_not_small several few) called
  · simp only [covers, if_false] at called ⊢
    exact parsePacket_chunk classified (ofNat_not_small several few) called

/-- While the generation stays incomplete nothing is delivered. -/
theorem receive_pending (several : 2 ≤ n) (few : n ≤ 255) (arrivals : List (Bytes × Nat))
    (inside : ∀ arrival ∈ arrivals, arrival.2 < n) {partials : Partials} {g : Generation Bytes}
    (represents : partials.lookup id = stored g)
    (incomplete : ¬ Generation.Covers (g ++ arrivedChunks n arrivals)) :
    ∃ parsed after, (∀ p ∈ parsed, p.result = .ok none) ∧
      after.lookup id = stored (g ++ arrivedChunks n arrivals) ∧
      ∀ later, receive codecs partials (arrivals.map (pieceDatagram id n) ++ later) = do
        let rest ← receive codecs after later
        return parsed ++ rest := by
  induction arrivals generalizing partials g with
  | nil => exact ⟨[], partials, by simp, by simpa [arrivedChunks] using represents, by simp⟩
  | cons arrival rest ih =>
    have regroup : g ++ arrivedChunks n (arrival :: rest) =
        (g ++ [⟨arrival.2, n, arrival.1⟩]) ++ arrivedChunks n rest := by
      simp [arrivedChunks]
    have opened : ¬ Generation.Covers (g ++ [⟨arrival.2, n, arrival.1⟩]) := by
      intro covers
      apply incomplete
      rw [regroup]
      exact Generation.covers_append (by simp) covers _
    obtain ⟨effects, parsedOne⟩ := parsePacket_piece codecs several few represents
      (inside arrival (by simp))
    simp only [opened, if_false] at parsedOne
    have stillStored : (partials.insert id
        (Generation.slots (g ++ [⟨arrival.2, n, arrival.1⟩]))).lookup id =
          stored (g ++ [⟨arrival.2, n, arrival.1⟩]) := by
      rw [Finmap.lookup_insert, stored_append]
    obtain ⟨parsed, after, pending, represents, received⟩ :=
      ih (fun other member => inside other (by simp [member])) stillStored (by rwa [← regroup])
    refine ⟨⟨.ok none, partials.insert id
      (Generation.slots (g ++ [⟨arrival.2, n, arrival.1⟩])), effects⟩ :: parsed,
      after, ?_, by rwa [regroup], fun later => ?_⟩
    · intro p member
      rcases List.mem_cons.mp member with rfl | member
      · rfl
      · exact pending p member
    · simp [receive, parsedOne, received]

end Run

section Arrivals
variable {pieces : List Bytes} {arrivals : List (Bytes × Nat)}

theorem arrival_inside (order : arrivals.Perm pieces.zipIdx) :
    ∀ arrival ∈ arrivals, arrival.2 < pieces.length := by
  rintro ⟨piece, i⟩ member
  have place := List.mem_zipIdx (order.mem_iff.mp member)
  simpa using place.2.1

theorem arrival_positions (order : arrivals.Perm pieces.zipIdx) :
    (arrivals.map Prod.snd).Perm (List.range pieces.length) := by
  have positions := order.map Prod.snd
  rwa [List.zipIdx_map_snd, ← List.range_eq_range'] at positions

theorem arrivedChunks_seqno (n : Nat) (arrivals : List (Bytes × Nat)) :
    (arrivedChunks n arrivals).map Chunk.seqno = arrivals.map Prod.snd := by
  simp [arrivedChunks, Function.comp_def]

theorem arrivedChunks_len (n : Nat) (nonempty : arrivals ≠ []) :
    (arrivedChunks n arrivals).len = n := by
  cases arrivals with
  | nil => contradiction
  | cons first rest => rfl

theorem arrived_covers (order : arrivals.Perm pieces.zipIdx) (nonempty : arrivals ≠ []) :
    (arrivedChunks pieces.length arrivals).Covers := by
  intro i inside
  rw [arrivedChunks_len _ nonempty] at inside
  have member := (arrival_positions order).mem_iff.mpr (List.mem_range.mpr inside)
  rw [← arrivedChunks_seqno pieces.length] at member
  exact List.mem_map.mp member

/-- Without one of its arrivals the message has a gap. -/
theorem arrived_gap {done others : List (Bytes × Nat)} {missing : Bytes × Nat}
    (order : (done ++ missing :: others).Perm pieces.zipIdx) (nonempty : done ≠ []) :
    ¬ (arrivedChunks pieces.length done).Covers := by
  intro covers
  have inside := arrival_inside order missing (by simp)
  obtain ⟨c, member, numbered⟩ := covers missing.2 (by rwa [arrivedChunks_len _ nonempty])
  have repeated : missing.2 ∈ done.map Prod.snd := by
    rw [← arrivedChunks_seqno pieces.length, ← numbered]
    exact List.mem_map_of_mem member
  have distinct := (arrival_positions order).nodup_iff.mpr List.nodup_range
  rw [List.map_append, List.nodup_append] at distinct
  exact distinct.2.2 missing.2 repeated missing.2 (by simp) rfl

theorem arrived_assembled (order : arrivals.Perm pieces.zipIdx) (nonempty : arrivals ≠ []) :
    (arrivedChunks pieces.length arrivals).assembled = pieces := by
  have covers := arrived_covers order nonempty
  have distinct : ((arrivedChunks pieces.length arrivals).map Chunk.seqno).Nodup := by
    rw [arrivedChunks_seqno]
    exact (arrival_positions order).nodup_iff.mpr List.nodup_range
  have keep : (arrivedChunks pieces.length arrivals).filter
      (fun c => c.seqno < (arrivedChunks pieces.length arrivals).len) =
        arrivedChunks pieces.length arrivals := by
    apply List.filter_eq_self.mpr
    intro c member
    obtain ⟨arrival, arrived, rfl⟩ := List.mem_map.mp member
    simpa [arrivedChunks_len _ nonempty] using arrival_inside order arrival arrived
  have rearranged : (arrivedChunks pieces.length pieces.zipIdx).Perm
      ((arrivedChunks pieces.length arrivals).filter
        (fun c => c.seqno < (arrivedChunks pieces.length arrivals).len)) := by
    rw [keep]
    exact (order.map _).symm
  have ascending : (arrivedChunks pieces.length pieces.zipIdx).Pairwise
      (fun a b => a.seqno < b.seqno) := by
    apply List.pairwise_map.mp
    rw [arrivedChunks_seqno, List.zipIdx_map_snd, ← List.range_eq_range']
    exact List.pairwise_lt_range
  rw [Generation.assembled_sorted covers distinct rearranged ascending]
  simp [arrivedChunks, Function.comp_def]

end Arrivals

/-- The whole transport: nothing before the last chunk, and then the decoding of
the payload, provided that its first contiguous segment shows two bytes. -/
theorem receive_chunks (codecs : Codecs) {partials : Partials} {id : UInt64} {pieces : List Bytes}
    {arrivals : List (Bytes × Nat)} (fresh : id ∉ partials) (several : 2 ≤ pieces.length)
    (few : pieces.length ≤ 255) (plain : ¬ [0x1e, 0x0f] <+: pieces.flatten)
    (order : arrivals.Perm pieces.zipIdx) :
    ∃ parsed last, receive codecs partials (arrivals.map (pieceDatagram id pieces.length)) =
        .ok (parsed ++ [last]) ∧
      (∀ p ∈ parsed, p.result = .ok none) ∧
      last.result = decodeVisible codecs (firstSegment pieces) pieces.flatten := by
  have size : arrivals.length = pieces.length := by simpa using order.length_eq
  have nonempty : arrivals ≠ [] := List.ne_nil_of_length_pos (by omega)
  obtain ⟨init, final, rfl⟩ : ∃ init final, arrivals = init ++ [final] :=
    ⟨_, _, (List.dropLast_concat_getLast nonempty).symm⟩
  have started : init ≠ [] := by
    rintro rfl
    simp at size
    omega
  have inside := arrival_inside order
  have initial : partials.lookup id = stored [] := Finmap.lookup_eq_none.mpr fresh
  obtain ⟨parsed, after, pending, represents, received⟩ := receive_pending codecs several few init
    (fun arrival member => inside arrival (by simp [member])) initial (arrived_gap order started)
  obtain ⟨effects, parsedLast⟩ := parsePacket_piece codecs several few represents
    (inside final (by simp))
  have regroup : [] ++ arrivedChunks pieces.length init ++ [⟨final.2, pieces.length, final.1⟩] =
      arrivedChunks pieces.length (init ++ [final]) := by
    simp [arrivedChunks]
  simp only [regroup, arrived_covers order nonempty, if_true,
    arrived_assembled order nonempty] at parsedLast
  obtain ⟨chain, chained, decoded⟩ :=
    parsePacket_chained codecs (after.erase id) several plain
  simp only [chained, Exec.ok_bind, decoded, Exec.pure_eq_ok] at parsedLast
  refine ⟨parsed, .after ⟨decodeVisible codecs (firstSegment pieces) pieces.flatten,
    after.erase id, []⟩ effects, ?_, pending, rfl⟩
  rw [List.map_append, received]
  simp [receive, parsedLast]

/-- A payload is malformed when it is too short to be classified or when the
decoder that its first two bytes select rejects it. -/
def Malformed (codecs : Codecs) (payload : Bytes) : Prop :=
  payload.length < 2 ∨ ∃ e, codecs.fromReader (payloadReader codecs payload) = .error e

/-- Chunked and direct transport have the same outcome: nothing is delivered
before the last chunk, which then delivers what the single datagram delivers. -/
def Transparent (codecs : Codecs) (partials : Partials) (id : UInt64) (pieces : List Bytes)
    (arrivals : List (Bytes × Nat)) : Prop :=
  ∃ parsed last direct,
    receive codecs partials (arrivals.map (pieceDatagram id pieces.length)) =
      .ok (parsed ++ [last]) ∧
    parsePacket codecs partials (.slice pieces.flatten) = .ok direct ∧
    (∀ p ∈ parsed, p.result = .ok none) ∧ last.result.toOption = direct.result.toOption

theorem decodeVisible_none_iff (codecs : Codecs) (visible payload : Bytes) :
    (decodeVisible codecs visible payload).toOption = none ↔
      visible.length < 2 ∨ ∃ e, codecs.fromReader (payloadReader codecs payload) = .error e := by
  unfold decodeVisible
  split
  · simp [*, Except.toOption]
  · cases decoded : codecs.fromReader (payloadReader codecs payload) <;>
      simp [*, decodeReader, Except.toOption]

theorem transparent_iff_outcome {codecs : Codecs} {partials : Partials} {id : UInt64}
    {pieces : List Bytes} {arrivals : List (Bytes × Nat)} (fresh : id ∉ partials)
    (several : 2 ≤ pieces.length) (few : pieces.length ≤ 255)
    (plain : ¬ [0x1e, 0x0f] <+: pieces.flatten) (order : arrivals.Perm pieces.zipIdx) :
    Transparent codecs partials id pieces arrivals ↔
      (decodeVisible codecs (firstSegment pieces) pieces.flatten).toOption =
        (decodeVisible codecs pieces.flatten pieces.flatten).toOption := by
  obtain ⟨parsed, last, received, pending, outcome⟩ :=
    receive_chunks codecs fresh several few plain order
  have direct := parsePacket_payload codecs partials (.slice pieces.flatten) plain
  constructor
  · rintro ⟨parsed', last', direct', received', direct'', _, same⟩
    have sameLast := (List.append_inj' (Except.ok.inj (received.symm.trans received')) rfl).2
    cases sameLast
    cases direct.symm.trans direct''
    rwa [outcome] at same
  · intro same
    exact ⟨parsed, last, _, received, direct, pending, by rwa [outcome]⟩

/-- Two bytes of the payload must be visible at once in the assembled chain. -/
theorem chunking_transparent_iff (codecs : Codecs) (partials : Partials) (id : UInt64)
    (pieces : List Bytes) (arrivals : List (Bytes × Nat)) (fresh : id ∉ partials)
    (several : 2 ≤ pieces.length) (few : pieces.length ≤ 255)
    (plain : ¬ [0x1e, 0x0f] <+: pieces.flatten) (order : arrivals.Perm pieces.zipIdx) :
    Transparent codecs partials id pieces arrivals ↔
      2 ≤ (firstSegment pieces).length ∨ Malformed codecs pieces.flatten := by
  rw [transparent_iff_outcome fresh several few plain order]
  have malformed : Malformed codecs pieces.flatten ↔
      (decodeVisible codecs pieces.flatten pieces.flatten).toOption = none :=
    (decodeVisible_none_iff codecs _ _).symm
  have shorter := (firstSegment_leads pieces).length_le
  rw [malformed]
  by_cases visible : 2 ≤ (firstSegment pieces).length
  · have whole : ¬ pieces.flatten.length < 2 := by omega
    simp only [decodeVisible, if_neg (Nat.not_lt.mpr visible), if_neg whole, visible, true_or]
  · have hidden : (decodeVisible codecs (firstSegment pieces) pieces.flatten).toOption = none :=
      (decodeVisible_none_iff codecs _ _).mpr (.inl (by omega))
    simp only [hidden, visible, false_or]
    exact eq_comm

def smallMessage : GELFMessage := ⟨"1.1", "h", "m", ∅⟩

def smallPayload : Bytes :=
  Utf8.encode "\x7b\"version\":\"1.1\",\"host\":\"h\",\"short_message\":\"m\"\x7d"

/-- Codecs that agree with the real ones on the small payload. -/
def smallCodecs : Codecs where
  gzDecoder _ := ⟨[], some "invalid gzip header"⟩
  zlibDecoder _ := ⟨[], some "corrupt deflate stream"⟩
  fromReader reader :=
    if reader = ⟨smallPayload, none⟩ then .ok smallMessage else .error "expected value"

/-- Two chunks are a count that `assemble_chunked` takes. -/
theorem two_not_small : ¬ (2 : UInt8) < 2 := by decide

theorem chunking_transparent_iff_small :
    Transparent smallCodecs ∅ 7 [smallPayload.take 2, smallPayload.drop 2]
      [(smallPayload.drop 2, 1), (smallPayload.take 2, 0)] :=
  (chunking_transparent_iff smallCodecs ∅ 7 _ _ Finmap.notMem_empty (by decide) (by decide)
    (by decide) (by decide)).mpr (.inl (by decide))

/-- A cut after the first byte: the assembled message is refused as too small,
although the same bytes in one datagram are a valid message. -/
theorem chunking_not_transparent :
    ¬ Transparent smallCodecs ∅ 7 [smallPayload.take 1, smallPayload.drop 1]
      [(smallPayload.take 1, 0), (smallPayload.drop 1, 1)] := by
  have plain : ¬ [0x1e, 0x0f] <+: [smallPayload.take 1, smallPayload.drop 1].flatten := by decide
  rw [transparent_iff_outcome Finmap.notMem_empty (by decide) (by decide) plain (by decide)]
  have refused : (decodeVisible smallCodecs
      (firstSegment [smallPayload.take 1, smallPayload.drop 1])
      [smallPayload.take 1, smallPayload.drop 1].flatten).toOption = none :=
    (decodeVisible_none_iff ..).mpr (.inl (by decide))
  rw [refused, eq_comm, decodeVisible_none_iff]
  rintro (short | ⟨e, failed⟩)
  · exact absurd short (by decide)
  · have read : payloadReader smallCodecs [smallPayload.take 1, smallPayload.drop 1].flatten =
        ⟨smallPayload, none⟩ := by decide
    rw [read] at failed
    simp [smallCodecs] at failed

end Yaffle.Gelf

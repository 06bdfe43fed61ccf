import Yaffle.Core.BigEndian
import Yaffle.Core.Json
import Yaffle.Gelf.Buf
import Mathlib.Data.Finmap
import Mathlib.Data.List.ReduceOption

/-! The GELF datagram parser of `gelf.rs`: classification by magic bytes, chunk
reassembly in the `partials` table, and the re-parse of an assembled payload. -/
namespace Yaffle.Gelf

/-- `HashMap<u64, Vec<Option<Bytes>>>`. -/
abbrev Slots := List (Option Bytes)
abbrev Partials := Finmap (fun _ : UInt64 => Slots)

structure GELFMessage where
  version : String
  host : String
  short_message : String
  other : Finmap (fun _ : String => Json.Value)

/-- What a byte source delivers before it ends or fails. -/
structure Reader where
  bytes : Bytes
  failure : Option String
  deriving DecidableEq

/-- `flate2` and `serde_json`, as functions of the byte stream they read. -/
structure Codecs where
  gzDecoder : Bytes → Reader
  zlibDecoder : Bytes → Reader
  fromReader : Reader → Except String GELFMessage

inductive PacketError where
  | io (message : String)
  | json (message : String)
  deriving DecidableEq

inductive PacketType where
  | uncompressed (content : Buf)
  | chunk (id : UInt64) (seqno count : UInt8) (content : Buf)
  | gzipCompressed (content : Buf)
  | zlibCompressed (content : Buf)

/-- `u64::from_be_bytes`. -/
def fromBeBytes (bytes : Bytes) : UInt64 := UInt64.ofNat (BigEndian.value bytes)

def zlibMagic : List (UInt8 × UInt8) :=
  [(0x78, 0x01), (0x78, 0x5e), (0x78, 0x9c), (0x78, 0xda),
    (0x78, 0x20), (0x78, 0x7d), (0x78, 0xbb), (0x78, 0xf9)]

def classify (buf : Buf) : Exec (Except PacketError PacketType) :=
  let nextBytes := buf.bytes
  if nextBytes.length < 2 then
    return .error (.io "Buffer available bytes too small")
  else do
    match ← Exec.slice nextBytes 0 2 with
    | [first, second] =>
      if (first, second) = (0x1e, 0x0f) then
        let buf ← buf.advance 2
        if buf.remaining < 10 then
          return .error (.io "Packet too small")
        let (h, content) ← buf.copyToSlice 10
        let seqno ← Exec.unwrap h[8]?
        let count ← Exec.unwrap h[9]?
        return .ok (.chunk (fromBeBytes (h.take 8)) seqno count content)
      else if (first, second) ∈ zlibMagic then
        return .ok (.zlibCompressed buf)
      else if (first, second) = (0x1f, 0x8b) then
        return .ok (.gzipCompressed buf)
      else
        return .ok (.uncompressed buf)
    | _ => return .ok (.uncompressed buf)

/-- The length check covers the two-byte slice. -/
theorem classify_eq (buf : Buf) : classify buf =
    match buf.bytes with
    | first :: second :: _ =>
      if (first, second) = (0x1e, 0x0f) then do
        let buf ← buf.advance 2
        if buf.remaining < 10 then
          return .error (.io "Packet too small")
        let (h, content) ← buf.copyToSlice 10
        let seqno ← Exec.unwrap h[8]?
        let count ← Exec.unwrap h[9]?
        return .ok (.chunk (fromBeBytes (h.take 8)) seqno count content)
      else if (first, second) ∈ zlibMagic then
        return .ok (.zlibCompressed buf)
      else if (first, second) = (0x1f, 0x8b) then
        return .ok (.gzipCompressed buf)
      else
        return .ok (.uncompressed buf)
    | _ => return .error (.io "Buffer available bytes too small") := by
  unfold classify
  match buf.bytes with
  | [] => rfl
  | [_] => rfl
  | first :: second :: rest =>
    have long : ¬ (first :: second :: rest).length < 2 := by simp
    have magic : Exec.slice (first :: second :: rest) 0 2 = .ok [first, second] := by
      simp [Exec.slice]
    simp only [long, if_false, magic, Exec.ok_bind]

/-- What a call does besides changing the table: every chunk that reaches
`assemble_chunked`, and every expiry task spawned for a new entry. -/
inductive Effect where
  | chunk (id : UInt64) (seqno count : UInt8) (content : Bytes)
  | spawnExpiry (id : UInt64)
  deriving DecidableEq

structure Assembly where
  pieces : Option (List Bytes)
  partials : Partials
  effects : List Effect

/-- `partials.entry(id).or_insert_with(..)`. -/
def entryOrInsert (partials : Partials) (id : UInt64) (count : UInt8) : Slots × List Effect :=
  match partials.lookup id with
  | some entry => (entry, [])
  | none => (List.replicate count.toNat none, [.spawnExpiry id])

/-- `entry.get_mut(seqno)` with `replace`; a seqno outside the vector is only logged. -/
def storePiece (entry : Slots) (seqno : UInt8) (content : Bytes) : Slots :=
  if seqno.toNat < entry.length then entry.set seqno.toNat (some content) else entry

def assembleChunked (partials : Partials) (id : UInt64) (seqno count : UInt8) (content : Buf) :
    Exec Assembly := do
  let (entry, spawned) := entryOrInsert partials id count
  let effects := .chunk id seqno count content.toBytes :: spawned
  let entry := storePiece entry seqno content.toBytes
  let partials := partials.insert id entry
  if none ∈ entry then
    return ⟨none, partials, effects⟩
  else
    let pieces ← Exec.unwrap (partials.lookup id)
    let pieces ← pieces.mapM Exec.unwrap
    return ⟨some pieces, partials.erase id, effects⟩

/-- The nested `Chain` over the drained pieces. -/
def chainPieces (complete : List Bytes) : Exec Buf := do
  let first ← Exec.unwrap complete[0]?
  let second ← Exec.unwrap complete[1]?
  return (complete.drop 2).foldl (fun chain item => .chain chain (.slice item))
    (.chain (.slice first) (.slice second))

theorem erase_insert (partials : Partials) (id : UInt64) (entry : Slots) :
    (partials.insert id entry).erase id = partials.erase id := by
  apply Finmap.ext_lookup
  intro other
  by_cases same : other = id
  · subst same
    simp only [Finmap.lookup_erase]
  · simp only [Finmap.lookup_erase_ne same, Finmap.lookup_insert_of_ne _ same]

theorem eq_map_some_of_full {entry : Slots} (full : none ∉ entry) :
    entry = entry.reduceOption.map some := by
  induction entry with
  | nil => rfl
  | cons slot rest ih =>
    simp only [List.mem_cons, not_or] at full
    cases slot with
    | none => exact absurd rfl full.1
    | some piece =>
      rw [List.reduceOption_cons_of_some, List.map_cons, ← ih full.2]

/-- Neither unwrap of `assemble_chunked` can fail, whatever the table holds. -/
theorem assembleChunked_eq (partials : Partials) (id : UInt64) (seqno count : UInt8)
    (content : Buf) :
    assembleChunked partials id seqno count content =
      let entry := storePiece (entryOrInsert partials id count).1 seqno content.toBytes
      let effects := .chunk id seqno count content.toBytes :: (entryOrInsert partials id count).2
      if none ∈ entry then .ok ⟨none, partials.insert id entry, effects⟩
      else .ok ⟨some entry.reduceOption, partials.erase id, effects⟩ := by
  simp only [assembleChunked]
  split
  · rfl
  · rename_i full
    simp only [Finmap.lookup_insert, Exec.unwrap_some, Exec.ok_bind,
      Exec.mapM_unwrap (eq_map_some_of_full full), erase_insert, Exec.pure_eq_ok]

theorem storePiece_length (entry : Slots) (seqno : UInt8) (content : Bytes) :
    (storePiece entry seqno content).length = entry.length := by
  unfold storePiece
  split <;> simp

/-- One chunk cannot fill an entry created for two or more. -/
theorem none_mem_storePiece_replicate (several : 2 ≤ count) (seqno : UInt8) (content : Bytes) :
    none ∈ storePiece (List.replicate count none) seqno content := by
  obtain ⟨i, inside, other⟩ : ∃ i < count, seqno.toNat ≠ i := by
    by_cases zero : seqno.toNat = 0
    · exact ⟨1, by omega, by omega⟩
    · exact ⟨0, by omega, zero⟩
  apply List.mem_of_getElem? (i := i)
  unfold storePiece
  split <;> simp [inside, other]

theorem two_le_of_not_small {count : UInt8} (several : ¬ count < 2) : 2 ≤ count.toNat := by
  have := UInt8.not_lt.mp several
  simpa using UInt8.le_iff_toNat_le.mp this

theorem assembleChunked_shrinks {partials : Partials} {id : UInt64} {count : UInt8}
    {assembly : Assembly} (several : ¬ count < 2)
    (assembled : assembleChunked partials id seqno count content = .ok assembly)
    (complete : assembly.pieces = some pieces) :
    assembly.partials.keys.card < partials.keys.card := by
  rw [assembleChunked_eq] at assembled
  simp only [entryOrInsert] at assembled
  cases found : partials.lookup id with
  | none =>
    simp only [found, none_mem_storePiece_replicate (two_le_of_not_small several),
      if_true] at assembled
    cases assembled
    contradiction
  | some entry =>
    have member : id ∈ partials.keys := Finmap.mem_keys.mpr (Finmap.mem_of_lookup_eq_some found)
    simp only [found] at assembled
    split at assembled <;> cases assembled
    · contradiction
    · rw [Finmap.keys_erase]
      exact Finset.card_erase_lt_of_mem member

structure Parsed where
  result : Except PacketError (Option GELFMessage)
  partials : Partials
  effects : List Effect

def Parsed.after (parsed : Parsed) (effects : List Effect) : Parsed :=
  { parsed with effects := effects ++ parsed.effects }

/-- `serde_json::from_reader(..)?` followed by `Ok(Some(m))`. -/
def decodeReader (codecs : Codecs) (reader : Reader) : Except PacketError (Option GELFMessage) :=
  match codecs.fromReader reader with
  | .ok m => .ok (some m)
  | .error e => .error (.json e)

def parsePacket (codecs : Codecs) (partials : Partials) (buf : Buf) : Exec Parsed := do
  match ← classify buf with
  | .error e => return ⟨.error e, partials, []⟩
  | .ok (.chunk id seqno count content) =>
    if several : count < 2 then
      return ⟨.ok none, partials, []⟩
    else match assembled : assembleChunked partials id seqno count content with
      | .error panic => throw panic
      | .ok assembly =>
        match complete : assembly.pieces with
        | none => return ⟨.ok none, assembly.partials, assembly.effects⟩
        | some pieces =>
          have := assembleChunked_shrinks several assembled complete
          let chain ← chainPieces pieces
          let parsed ← parsePacket codecs assembly.partials chain
          return parsed.after assembly.effects
  | .ok (.uncompressed content) =>
    return ⟨decodeReader codecs ⟨content.toBytes, none⟩, partials, []⟩
  | .ok (.gzipCompressed content) =>
    return ⟨decodeReader codecs (codecs.gzDecoder content.toBytes), partials, []⟩
  | .ok (.zlibCompressed content) =>
    return ⟨decodeReader codecs (codecs.zlibDecoder content.toBytes), partials, []⟩
  termination_by partials.keys.card

/-- The chunk branch, with the result of `assemble_chunked` at hand. -/
theorem parsePacket_chunk {codecs : Codecs} {partials : Partials} {buf : Buf} {id : UInt64}
    {seqno count : UInt8} {content : Buf} {assembly : Assembly}
    (classified : classify buf = .ok (.ok (.chunk id seqno count content)))
    (several : ¬ count < 2)
    (assembled : assembleChunked partials id seqno count content = .ok assembly) :
    parsePacket codecs partials buf = match assembly.pieces with
      | none => .ok ⟨.ok none, assembly.partials, assembly.effects⟩
      | some pieces => do
        let chain ← chainPieces pieces
        let parsed ← parsePacket codecs assembly.partials chain
        return parsed.after assembly.effects := by
  rw [parsePacket, classified]
  simp only [Exec.ok_bind, several, dite_false]
  split
  · rename_i panic failed
    cases assembled.symm.trans failed
  · rename_i same
    cases assembled.symm.trans same
    cases assembly with
    | mk pieces after effects => cases pieces <;> rfl

/-- A chunk header may straddle the segments of a chain, its magic bytes may not. -/
theorem classify_header {buf : Buf} {key rest : Bytes} {seqno count : UInt8}
    (visible : [0x1e, 0x0f] <+: buf.bytes) (size : key.length = 8)
    (whole : buf.toBytes = 0x1e :: 0x0f :: (key ++ seqno :: count :: rest)) :
    ∃ content, classify buf = .ok (.ok (.chunk (fromBeBytes key) seqno count content)) ∧
      content.toBytes = rest := by
  obtain ⟨more, visible⟩ := visible
  obtain ⟨body, advanced, body_bytes⟩ := buf.advance_ok 2 (by simp [whole])
  rw [whole, List.drop_succ_cons, List.drop_succ_cons, List.drop_zero] at body_bytes
  obtain ⟨content, copied, content_bytes⟩ := body.copyToSlice_ok 10
    (by simp [body_bytes, size]; omega)
  have header : body.toBytes.take 10 = key ++ [seqno, count] := by
    simp [body_bytes, List.take_append, size]
  have tail : content.toBytes = rest := by
    simp [content_bytes, body_bytes, List.drop_append, size]
  have enough : ¬ body.toBytes.length < 10 := by
    simp [body_bytes, size]
    omega
  refine ⟨content, ?_, tail⟩
  rw [header] at copied
  simp [classify_eq, ← visible, advanced, enough, copied, size]

/-- The byte stream that `serde_json` reads for a payload, by its first two bytes. -/
def payloadReader (codecs : Codecs) (payload : Bytes) : Reader :=
  match payload with
  | first :: second :: _ =>
    if (first, second) ∈ zlibMagic then codecs.zlibDecoder payload
    else if (first, second) = (0x1f, 0x8b) then codecs.gzDecoder payload
    else ⟨payload, none⟩
  | _ => ⟨payload, none⟩

/-- The outcome for a payload of which `visible` is the first contiguous segment. -/
def decodeVisible (codecs : Codecs) (visible payload : Bytes) :
    Except PacketError (Option GELFMessage) :=
  if visible.length < 2 then .error (.io "Buffer available bytes too small")
  else decodeReader codecs (payloadReader codecs payload)

/-- A buffer that is no chunk leaves the table alone. Whether it is decoded at
all depends on its first contiguous segment, not on its whole content. -/
theorem parsePacket_payload (codecs : Codecs) (partials : Partials) (buf : Buf)
    (plain : ¬ [0x1e, 0x0f] <+: buf.bytes) :
    parsePacket codecs partials buf =
      .ok ⟨decodeVisible codecs buf.bytes buf.toBytes, partials, []⟩ := by
  unfold decodeVisible
  obtain ⟨rest, whole⟩ := buf.bytes_prefix
  rw [parsePacket, classify_eq]
  match visible : buf.bytes, plain with
  | [], _ => simp
  | [_], _ => simp
  | first :: second :: more, plain =>
    rw [visible] at whole
    have notChunk : ¬ (first, second) = (0x1e, 0x0f) := by
      rintro ⟨⟩
      exact plain ⟨more, rfl⟩
    have long : ¬ (first :: second :: more).length < 2 := by simp
    rw [if_neg long, ← whole]
    simp only [notChunk, if_false, List.cons_append, payloadReader]
    by_cases zlib : (first, second) ∈ zlibMagic
    · simp [zlib, ← whole]
    · simp only [zlib, if_false]
      by_cases gzip : (first, second) = (0x1f, 0x8b) <;> simp [gzip, ← whole]

end Yaffle.Gelf

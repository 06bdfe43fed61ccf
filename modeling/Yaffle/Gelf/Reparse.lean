import Yaffle.Gelf.Expiry
import Yaffle.Gelf.Reassembly
import Mathlib.Algebra.BigOperators.Group.Finset.Basic

/-! The chain of calls behind one datagram: `parse_packet` calls itself on every
payload that it completes. What a call leaves in the table, why it cannot panic,
and what bounds the depth. -/
namespace Yaffle.Gelf
open Transition

/-- The arguments of one call of `parse_packet`. -/
structure Call where
  partials : Partials
  buf : Buf

/-- The call completes `id` and goes on with the assembled payload. -/
inductive Reparses : Call → UInt64 → Call → Prop
  | intro {id : UInt64} (classified : classify buf = .ok (.ok (.chunk id seqno count content)))
      (several : ¬ count < 2)
      (assembled : assembleChunked partials id seqno count content = .ok assembly)
      (complete : assembly.pieces = some pieces) (chained : chainPieces pieces = .ok chain) :
      Reparses ⟨partials, buf⟩ id ⟨assembly.partials, chain⟩

/-- The nested calls of one call, by the ids that they complete. -/
abbrev Reparsed : Call → List UInt64 → Call → Prop := Reaches Reparses

/-- `Reparses` is the recursion of `parse_packet`: the outer call returns what
the nested one returns, with its own effects put before. -/
theorem parsePacket_reparses (codecs : Codecs) {call next : Call} {id : UInt64}
    (reparses : Reparses call id next) :
    ∃ effects, parsePacket codecs call.partials call.buf =
      parsePacket codecs next.partials next.buf >>= fun inner => .ok (inner.after effects) := by
  cases reparses with
  | @intro _ _ _ _ _ assembly _ _ _ classified several assembled complete chained =>
    refine ⟨assembly.effects, ?_⟩
    simp only [parsePacket_chunk classified several assembled, complete, chained, Exec.ok_bind,
      Exec.pure_eq_ok]

/-- A nested call needs a full entry of the completed id, and that entry is gone. -/
theorem Reparses.entry {call next : Call} {id : UInt64} (reparses : Reparses call id next) :
    ∃ seqno count content entry pieces,
      classify call.buf = .ok (.ok (.chunk id seqno count content)) ∧
      call.partials.lookup id = some entry ∧
      storePiece entry seqno content.toBytes = pieces.map some ∧
      chainPieces pieces = .ok next.buf ∧ next.partials = call.partials.erase id := by
  cases reparses with
  | intro classified several assembled complete chained =>
    cases assembleChunked_cases several assembled with
    | completed present full =>
      cases complete
      exact ⟨_, _, _, _, _, classified, present, full, chained, rfl⟩
    | stored | created => contradiction

section Measure

/-- The bytes of the chunks that an entry holds. -/
def entryBytes (entry : Slots) : Nat := entry.reduceOption.flatten.length

/-- The bytes of all stored chunks. -/
def storedBytes (partials : Partials) : Nat :=
  ∑ id ∈ partials.keys, ((partials.lookup id).elim 0 entryBytes)

/-- What a call has at hand: the stored chunks and its own buffer. -/
def Call.size (call : Call) : Nat := storedBytes call.partials + call.buf.toBytes.length

theorem storedBytes_erase {partials : Partials} {id : UInt64} {entry : Slots}
    (present : partials.lookup id = some entry) :
    entryBytes entry + storedBytes (partials.erase id) = storedBytes partials := by
  have member : id ∈ partials.keys :=
    Finmap.mem_keys.mpr (Finmap.mem_of_lookup_eq_some present)
  have others : storedBytes (partials.erase id) =
      ∑ other ∈ partials.keys.erase id, ((partials.lookup other).elim 0 entryBytes) := by
    unfold storedBytes
    rw [Finmap.keys_erase]
    apply Finset.sum_congr rfl
    intro other kept
    rw [Finmap.lookup_erase_ne (Finset.ne_of_mem_erase kept)]
  have split := Finset.add_sum_erase partials.keys
    (fun other => (partials.lookup other).elim 0 entryBytes) member
  simp only [present, Option.elim_some] at split
  rw [others, split, storedBytes]

theorem entryBytes_set_le (entry : Slots) (i : Nat) (content : Bytes) :
    entryBytes (entry.set i (some content)) ≤ entryBytes entry + content.length := by
  induction entry generalizing i with
  | nil => simp [entryBytes]
  | cons slot rest ih =>
    cases i with
    | zero =>
      cases slot <;>
      · simp [entryBytes, List.reduceOption_cons_of_some, List.reduceOption_cons_of_none]
        omega
    | succ i =>
      have later := ih i
      cases slot <;>
      · simp [entryBytes, List.reduceOption_cons_of_some, List.reduceOption_cons_of_none] at later ⊢
        omega

theorem entryBytes_storePiece_le (entry : Slots) (seqno : UInt8) (content : Bytes) :
    entryBytes (storePiece entry seqno content) ≤ entryBytes entry + content.length := by
  unfold storePiece
  split
  · exact entryBytes_set_le entry _ content
  · exact Nat.le_add_right _ _

/-- The magic bytes, the id, the seqno and the count take twelve bytes. -/
theorem classify_chunk_size {buf content : Buf} {id : UInt64} {seqno count : UInt8}
    (classified : classify buf = .ok (.ok (.chunk id seqno count content))) :
    buf.toBytes.length = content.toBytes.length + 12 := by
  obtain ⟨more, whole⟩ := buf.bytes_prefix
  rw [classify_eq] at classified
  split at classified
  · rename_i first second rest visible
    split at classified
    · have long : 2 ≤ buf.toBytes.length := by simp [← whole, visible]
      obtain ⟨body, advanced, body_bytes⟩ := buf.advance_ok 2 long
      rw [advanced, Exec.ok_bind] at classified
      split at classified
      · cases classified
      · rename_i enough
        rw [Buf.remaining_eq_length, Nat.not_lt] at enough
        obtain ⟨tail, copied, tail_bytes⟩ := body.copyToSlice_ok 10 enough
        rw [copied, Exec.ok_bind] at classified
        obtain ⟨_, _, classified⟩ := Exec.bind_eq_ok.mp classified
        obtain ⟨_, _, classified⟩ := Exec.bind_eq_ok.mp classified
        cases classified
        have size := congrArg List.length body_bytes
        rw [List.length_drop] at size
        rw [tail_bytes, List.length_drop]
        omega
    · split at classified
      · cases classified
      · split at classified <;> cases classified
  · cases classified

variable {call next : Call} {id : UInt64}

theorem Reparses.card (reparses : Reparses call id next) :
    next.partials.keys.card + 1 = call.partials.keys.card := by
  obtain ⟨_, _, _, entry, _, _, present, _, _, erased⟩ := reparses.entry
  have member : id ∈ call.partials.keys :=
    Finmap.mem_keys.mpr (Finmap.mem_of_lookup_eq_some present)
  rw [erased, Finmap.keys_erase]
  exact Finset.card_erase_add_one member

theorem chainPieces_several {pieces : List Bytes} {chain : Buf}
    (chained : chainPieces pieces = .ok chain) : 2 ≤ pieces.length := by
  match pieces with
  | [] => cases chained
  | [_] => cases chained
  | _ :: _ :: _ => simp

/-- The payload of a nested call consists of stored chunks and of the content
of the chunk that completes it; the header of that chunk is gone. -/
theorem Reparses.size (reparses : Reparses call id next) : next.size + 12 ≤ call.size := by
  obtain ⟨seqno, count, content, entry, pieces, classified, present, full, chained, erased⟩ :=
    reparses.entry
  obtain ⟨chain, again, whole, _⟩ := chainPieces_ok pieces (chainPieces_several chained)
  cases chained.symm.trans again
  have payload : entryBytes (storePiece entry seqno content.toBytes) = next.buf.toBytes.length := by
    rw [full, whole, entryBytes]
    simp [List.reduceOption]
  have stored := entryBytes_storePiece_le entry seqno content.toBytes
  have header := classify_chunk_size classified
  have table := storedBytes_erase present
  rw [← erased] at table
  unfold Call.size
  omega

end Measure

/-- No payload is re-parsed: the call is the last of its chain. -/
def Stops (call : Call) : Prop := ∀ id next, ¬ Reparses call id next

theorem chain_exists (call : Call) : ∃ ids last, Reparsed call ids last ∧ Stops last := by
  -- Every nested call finds one entry fewer.
  generalize size : call.partials.keys.card = n
  induction n generalizing call with
  | zero =>
    refine ⟨[], call, .refl _, ?_⟩
    intro id next reparses
    have := reparses.card
    omega
  | succ n ih =>
    by_cases stops : Stops call
    · exact ⟨[], call, .refl _, stops⟩
    · simp only [Stops, not_forall, not_not] at stops
      obtain ⟨id, next, reparses⟩ := stops
      have fewer := reparses.card
      obtain ⟨ids, last, chain, stops⟩ := ih next (by omega)
      exact ⟨id :: ids, last, .next reparses chain, stops⟩

/-- The table without the entries of `ids`. -/
def without (partials : Partials) (ids : List UInt64) : Partials :=
  ids.foldl (fun partials id => partials.erase id) partials

theorem lookup_without (partials : Partials) (ids : List UInt64) (id : UInt64) :
    (without partials ids).lookup id = if id ∈ ids then none else partials.lookup id := by
  induction ids generalizing partials with
  | nil => rfl
  | cons first rest ih =>
    have step : without partials (first :: rest) = without (partials.erase first) rest := rfl
    rw [step, ih]
    by_cases same : id = first
    · subst same
      simp
    · simp [same, Finmap.lookup_erase_ne same]

/-- Along a chain every completed id had an entry, and only these are removed. -/
theorem reparsed_table {call last : Call} {ids : List UInt64} (chain : Reparsed call ids last) :
    last.partials = without call.partials ids ∧ ids.Nodup ∧ ∀ id ∈ ids, id ∈ call.partials := by
  induction chain with
  | refl => exact ⟨rfl, List.nodup_nil, by simp⟩
  | @next call id next ids last reparses _ ih =>
    obtain ⟨_, _, _, entry, _, _, present, _, _, erased⟩ := reparses.entry
    obtain ⟨table, distinct, members⟩ := ih
    rw [erased] at table members
    refine ⟨table, List.nodup_cons.mpr ⟨?_, distinct⟩, ?_⟩
    · intro again
      exact Finmap.notMem_erase_self (members id again)
    · intro other member
      rcases List.mem_cons.mp member with rfl | later
      · exact Finmap.mem_of_lookup_eq_some present
      · exact (Finmap.mem_erase.mp (members other later)).2

/-- The first call of a chain returns what the last one does. -/
theorem reparsed_result (codecs : Codecs) {call last : Call} {ids : List UInt64}
    (chain : Reparsed call ids last) {parsed : Parsed}
    (called : parsePacket codecs call.partials call.buf = .ok parsed) :
    ∃ inner, parsePacket codecs last.partials last.buf = .ok inner ∧
      inner.result = parsed.result ∧ inner.partials = parsed.partials := by
  induction chain generalizing parsed with
  | refl => exact ⟨parsed, called, rfl, rfl⟩
  | next reparses _ ih =>
    obtain ⟨effects, same⟩ := parsePacket_reparses codecs reparses
    rw [same] at called
    obtain ⟨inner, nested, after⟩ := Exec.bind_eq_ok.mp called
    cases after
    obtain ⟨final, calledLast, result, partials⟩ := ih nested
    exact ⟨final, calledLast, result, partials⟩

/-- The table after the last chunk of a chain. -/
inductive LastChunk (partials : Partials) (id : UInt64) (seqno count : UInt8) (content : Bytes) :
    Partials → Prop
  | ignored (few : count < 2) : LastChunk partials id seqno count content partials
  | outside (several : ¬ count < 2) (present : partials.lookup id = some entry)
      (outside : entry.length ≤ seqno.toNat) : LastChunk partials id seqno count content partials
  | replaced (several : ¬ count < 2) (present : partials.lookup id = some entry)
      (inside : seqno.toNat < entry.length) (gap : none ∈ entry.set seqno.toNat (some content)) :
      LastChunk partials id seqno count content
        (partials.insert id (entry.set seqno.toNat (some content)))
  | inserted (several : ¬ count < 2) (absent : partials.lookup id = none) :
      LastChunk partials id seqno count content
        (partials.insert id (storePiece (List.replicate count.toNat none) seqno content))

/-- A chunk that completes nothing fills one slot, starts an entry, or is lost. -/
theorem pending_lastChunk {partials : Partials} {id : UInt64} {seqno count : UInt8} {content : Buf}
    {assembly : Assembly} (several : ¬ count < 2)
    (assembled : assembleChunked partials id seqno count content = .ok assembly)
    (pending : assembly.pieces = none) :
    LastChunk partials id seqno count content.toBytes assembly.partials := by
  cases assembleChunked_cases several assembled with
  | completed => contradiction
  | created absent => exact .inserted several absent
  | @stored entry present gap =>
    by_cases inside : seqno.toNat < entry.length
    · rw [storePiece, if_pos inside] at gap ⊢
      exact .replaced several present inside gap
    · rw [storePiece, if_neg inside, insert_stored present]
      exact .outside several present (Nat.not_lt.mp inside)

/-- What the last call of a chain does to its table, by the result it gives. -/
def LastEffect (call : Call) (result : Except PacketError (Option GELFMessage))
    (after : Partials) : Prop :=
  match result with
  | .error _ | .ok (some _) => after = call.partials
  | .ok none => ∃ id seqno count content,
      classify call.buf = .ok (.ok (.chunk id seqno count content)) ∧
      LastChunk call.partials id seqno count content.toBytes after

theorem decoded_effect (codecs : Codecs) (call : Call) (reader : Reader) :
    LastEffect call (decodeReader codecs reader) call.partials := by
  rw [decodeReader]
  cases codecs.fromReader reader <;> rfl

/-- The last call of a chain changes the table only when it returns `Ok(None)`. -/
theorem stops_effect {codecs : Codecs} {call : Call} {parsed : Parsed} (stops : Stops call)
    (called : parsePacket codecs call.partials call.buf = .ok parsed) :
    LastEffect call parsed.result parsed.partials := by
  obtain ⟨classified, found⟩ := classify_total call.buf
  match classified, found with
  | .error e, found =>
    rw [parsePacket, found] at called
    cases called
    rfl
  | .ok (.uncompressed content), found =>
    rw [parsePacket, found] at called
    cases called
    exact decoded_effect codecs call _
  | .ok (.gzipCompressed content), found =>
    rw [parsePacket, found] at called
    cases called
    exact decoded_effect codecs call _
  | .ok (.zlibCompressed content), found =>
    rw [parsePacket, found] at called
    cases called
    exact decoded_effect codecs call _
  | .ok (.chunk id seqno count content), found =>
    by_cases few : count < 2
    · rw [parsePacket, found] at called
      simp only [Exec.ok_bind, few, dite_true, Exec.pure_eq_ok] at called
      cases called
      exact ⟨id, seqno, count, content, found, .ignored few⟩
    · obtain ⟨assembly, assembled⟩ := assembleChunked_total call.partials id seqno count content
      rw [parsePacket_chunk found few assembled] at called
      cases complete : assembly.pieces with
      | some pieces =>
        -- A completed payload would have been parsed by a further call.
        simp only [complete] at called
        obtain ⟨chain, chained, _⟩ := Exec.bind_eq_ok.mp called
        exact absurd (.intro found few assembled complete chained) (stops id _)
      | none =>
        simp only [complete] at called
        cases called
        exact ⟨id, seqno, count, content, found, pending_lastChunk few assembled complete⟩

/-- The effect of a call on the table. It takes out the ids that it completes
along its chain; only a call that returns `Ok(None)` does more, and then to the
entry of its last chunk only. -/
theorem parsePacket_effect {codecs : Codecs} {Addr : Type} {events : List (LoopEvent Addr)}
    {s : LoopState Addr} (run : Runs codecs events s) (bytes : Bytes) :
    ∃ parsed, parsePacket codecs s.partials (.slice bytes) = .ok parsed ∧
      (∃ ids last, Reparsed ⟨s.partials, .slice bytes⟩ ids last ∧ Stops last) ∧
      ∀ ids last, Reparsed ⟨s.partials, .slice bytes⟩ ids last → Stops last →
        ids.Nodup ∧ (∀ id ∈ ids, id ∈ s.partials) ∧
        match parsed.result with
        | .error _ | .ok (some _) => parsed.partials = without s.partials ids
        | .ok none => ∃ id seqno count content,
            classify last.buf = .ok (.ok (.chunk id seqno count content)) ∧
            LastChunk (without s.partials ids) id seqno count content.toBytes parsed.partials := by
  obtain ⟨parsed, called, _⟩ := parsePacket_total codecs (runs_wellFormed run) (.slice bytes)
  refine ⟨parsed, called, chain_exists _, ?_⟩
  intro ids last chain stops
  obtain ⟨table, distinct, members⟩ := reparsed_table chain
  obtain ⟨inner, calledLast, result, partials⟩ := reparsed_result codecs chain called
  have effect := stops_effect stops calledLast
  unfold LastEffect at effect
  rw [table, result, partials] at effect
  exact ⟨distinct, members, effect⟩

/-- The receiver after the first of two chunks. -/
theorem first_chunk_run : Runs smallCodecs
    [.datagram () (chunkDatagram 1 0 2 (smallPayload.take 2))]
    (LoopState.initial.began 1 0 2 (smallPayload.take 2) : LoopState Unit) :=
  .one (first_chunk_step smallCodecs () Finmap.notMem_empty 0 (by decide) _)

/-- The second chunk completes id 1, and its payload is no chunk. -/
theorem parsePacket_effect_small :
    ∃ parsed, parsePacket smallCodecs
        (LoopState.initial.began 1 0 2 (smallPayload.take 2) : LoopState Unit).partials
        (.slice (chunkDatagram 1 1 2 (smallPayload.drop 2))) = .ok parsed ∧
      parsed.partials.lookup 1 = none := by
  obtain ⟨parsed, called, _, effect⟩ := parsePacket_effect first_chunk_run
    (chunkDatagram 1 1 2 (smallPayload.drop 2))
  refine ⟨parsed, called, ?_⟩
  obtain ⟨content, classified, whole⟩ := classify_chunkDatagram 1 1 2 (smallPayload.drop 2)
  have present : (LoopState.initial.began 1 0 2 (smallPayload.take 2) :
      LoopState Unit).partials.lookup 1 = some [some (smallPayload.take 2), none] :=
    Finmap.lookup_insert _
  have full : storePiece [some (smallPayload.take 2), none] 1 content.toBytes =
      [smallPayload.take 2, smallPayload.drop 2].map some := by
    rw [whole]
    rfl
  have reparses : Reparses ⟨_, _⟩ 1 ⟨_, _⟩ :=
    .intro classified (by decide) (assembleChunked_filled 2 present full) rfl rfl
  have noChunk {id seqno count content} :
      classify (.chain (.slice (smallPayload.take 2)) (.slice (smallPayload.drop 2))) ≠
        .ok (.ok (.chunk id seqno count content)) := by
    intro chunk
    have plain : classify (.chain (.slice (smallPayload.take 2)) (.slice (smallPayload.drop 2))) =
        .ok (.ok (.uncompressed _)) := rfl
    cases chunk.symm.trans plain
  have plain (table : Partials) :
      Stops ⟨table, .chain (.slice (smallPayload.take 2)) (.slice (smallPayload.drop 2))⟩ := by
    intro id next again
    obtain ⟨_, _, _, _, _, chunk, _⟩ := again.entry
    exact noChunk chunk
  obtain ⟨_, _, removed⟩ := effect [1] _ (.one reparses) (plain _)
  split at removed
  · rw [removed, lookup_without]
    rfl
  · rw [removed, lookup_without]
    rfl
  · obtain ⟨_, _, _, _, chunk, _⟩ := removed
    exact absurd chunk noChunk

/-- `parse_packet` returns at every depth, whatever arrives: no entry of a
reachable table is full, or too short for the two pieces of a chain. -/
theorem parsePacket_never_panics {codecs : Codecs} {Addr : Type} {events : List (LoopEvent Addr)}
    {s : LoopState Addr} (run : Runs codecs events s) :
    (∀ id entry, s.partials.lookup id = some entry →
      2 ≤ entry.length ∧ entry.length ≤ 255 ∧ none ∈ entry) ∧
    ∀ bytes ids call, Reparsed ⟨s.partials, .slice bytes⟩ ids call →
      ∃ parsed, parsePacket codecs call.partials call.buf = .ok parsed := by
  have formed := runs_wellFormed run
  refine ⟨formed, ?_⟩
  intro bytes ids call chain
  obtain ⟨parsed, called, _⟩ := parsePacket_total codecs formed (.slice bytes)
  obtain ⟨inner, nested, _⟩ := reparsed_result codecs chain called
  exact ⟨inner, nested⟩

theorem parsePacket_never_panics_small :
    ∃ parsed, parsePacket smallCodecs
      (LoopState.initial.began 1 0 2 (smallPayload.take 2) : LoopState Unit).partials
      (.slice (chunkDatagram 1 7 9 [])) = .ok parsed :=
  (parsePacket_never_panics first_chunk_run).2 _ [] ⟨_, _⟩ (.refl _)

theorem reparsed_card {call last : Call} {ids : List UInt64} (chain : Reparsed call ids last) :
    ids.length + last.partials.keys.card = call.partials.keys.card := by
  induction chain with
  | refl => exact Nat.zero_add _
  | next reparses _ ih =>
    have fewer := reparses.card
    rw [List.length_cons]
    omega

/-- The recursion ends. There are at most as many nested calls as entries, so
one call more with the outer one, and each has one entry and twelve bytes less. -/
theorem parsePacket_terminates {codecs : Codecs} {Addr : Type} {events : List (LoopEvent Addr)}
    {s : LoopState Addr} (run : Runs codecs events s) (bytes : Bytes) :
    (∃ parsed, parsePacket codecs s.partials (.slice bytes) = .ok parsed) ∧
    (∃ ids last, Reparsed ⟨s.partials, .slice bytes⟩ ids last ∧ Stops last) ∧
    ∀ ids call, Reparsed ⟨s.partials, .slice bytes⟩ ids call →
      ids.length ≤ s.partials.keys.card ∧
      ∀ id next, Reparses call id next →
        next.partials.keys.card + 1 = call.partials.keys.card ∧ next.size + 12 ≤ call.size := by
  obtain ⟨parsed, called, _⟩ := parsePacket_total codecs (runs_wellFormed run) (.slice bytes)
  refine ⟨⟨parsed, called⟩, chain_exists _, ?_⟩
  intro ids call chain
  have count := reparsed_card chain
  refine ⟨Nat.le.intro count, ?_⟩
  intro id next reparses
  exact ⟨reparses.card, reparses.size⟩

theorem parsePacket_terminates_small :
    let table := (LoopState.initial.began 1 0 2 (smallPayload.take 2) : LoopState Unit).partials
    let datagram := Buf.slice (chunkDatagram 1 1 2 (smallPayload.drop 2))
    (∃ parsed, parsePacket smallCodecs table datagram = .ok parsed) ∧
    (∃ ids last, Reparsed ⟨table, datagram⟩ ids last ∧ Stops last) ∧
    ∀ ids call, Reparsed ⟨table, datagram⟩ ids call →
      ids.length ≤ table.keys.card ∧
      ∀ id next, Reparses call id next →
        next.partials.keys.card + 1 = call.partials.keys.card ∧ next.size + 12 ≤ call.size :=
  parsePacket_terminates first_chunk_run _

end Yaffle.Gelf

import Yaffle.Gelf.Expiry
import Yaffle.Gelf.Table

/-! Several senders and one table. The table is keyed by the id that a sender
chose, and the source address of a datagram is used for nothing but the tag of a
message. A sender is isolated as long as no chunk reaches an entry of the other
side. -/
namespace Yaffle.Gelf
open Transition
variable {Addr : Type}

/-- `parse_packet` on the datagrams of several senders in turn. -/
def exchange (codecs : Codecs) : Partials → List (Addr × Bytes) → Exec (List (Addr × Parsed))
  | _, [] => return []
  | partials, (src, bytes) :: rest => do
    let parsed ← parsePacket codecs partials (.slice bytes)
    let later ← exchange codecs parsed.partials rest
    return (src, parsed) :: later

def effects (run : List (Addr × Parsed)) : List Effect := run.flatMap (fun d => d.2.effects)

def sentOf (run : List (Addr × Parsed)) : List (Addr × GELFMessage) :=
  run.flatMap (fun d => deliveries d.1 d.2.result)

/-- What the datagrams bring when they are all that is received: their chunks,
with those inside the payloads that they complete. -/
def effectsOf (codecs : Codecs) (stream : List (Addr × Bytes)) : List Effect :=
  match exchange codecs ∅ stream with
  | .ok run => effects run
  | .error _ => []

abbrev datagrams (stream : List (Addr × Bytes)) : List (LoopEvent Addr) :=
  stream.map (fun d => .datagram d.1 d.2)

theorem exchange_total (codecs : Codecs) {partials : Partials} (formed : WellFormed partials)
    (stream : List (Addr × Bytes)) : ∃ run, exchange codecs partials stream = .ok run := by
  induction stream generalizing partials with
  | nil => exact ⟨[], rfl⟩
  | cons d rest ih =>
    obtain ⟨parsed, called, formed⟩ := parsePacket_total codecs formed (.slice d.2)
    obtain ⟨later, ran⟩ := ih formed
    exact ⟨(d.1, parsed) :: later, by simp [exchange, called, ran]⟩

theorem exchange_cons {codecs : Codecs} {partials : Partials} {src : Addr} {bytes : Bytes}
    {rest : List (Addr × Bytes)} {run : List (Addr × Parsed)} :
    exchange codecs partials ((src, bytes) :: rest) = .ok run ↔ ∃ parsed later,
      parsePacket codecs partials (.slice bytes) = .ok parsed ∧
      exchange codecs parsed.partials rest = .ok later ∧ run = (src, parsed) :: later := by
  rw [exchange, Exec.bind_eq_ok]
  constructor
  · rintro ⟨parsed, called, ran⟩
    obtain ⟨later, ran, same⟩ := Exec.bind_eq_ok.mp ran
    exact ⟨parsed, later, called, ran, (Except.ok.inj same).symm⟩
  · rintro ⟨parsed, later, called, ran, rfl⟩
    exact ⟨parsed, called, by simp [ran]⟩

theorem effectsOf_eq {codecs : Codecs} {stream : List (Addr × Bytes)} {run : List (Addr × Parsed)}
    (ran : exchange codecs ∅ stream = .ok run) : effectsOf codecs stream = effects run := by
  rw [effectsOf, ran]

theorem received_state (s : LoopState Addr) (src : Addr) (parsed : Parsed) :
    (s.received src parsed).partials = parsed.partials ∧
      (s.received src parsed).sent = s.sent ++ deliveries src parsed.result := by
  have spawned (ids : List UInt64) (s : LoopState Addr) :
      (ids.foldl LoopState.spawn s).sent = s.sent := by
    induction ids generalizing s with
    | nil => rfl
    | cons id rest ih => exact ih (s.spawn id)
  exact ⟨rfl, congrArg (· ++ _) (spawned _ s)⟩

theorem exchange_reaches {codecs : Codecs} {stream : List (Addr × Bytes)} {s : LoopState Addr}
    {run : List (Addr × Parsed)} (ran : exchange codecs s.partials stream = .ok run) :
    ∃ t, Reaches (Step codecs) s (datagrams stream) t := by
  induction stream generalizing s run with
  | nil => exact ⟨s, .refl s⟩
  | cons d rest ih =>
    obtain ⟨parsed, later, called, ranLater, rfl⟩ := exchange_cons.mp ran
    obtain ⟨t, reached⟩ := ih (s := s.received d.1 parsed) ranLater
    exact ⟨t, .next (.datagram called) reached⟩

section Sources

/-- Where the pieces of an entry come from, in a log of chunks. -/
structure Sourced (log : List Effect) (id : UInt64) (entry : Slots) : Prop where
  sized : ∃ seqno count content,
    .chunk id seqno count content ∈ log ∧ entry.length = count.toNat
  pieces : ∀ i piece, entry[i]? = some (some piece) →
    ∃ seqno count, .chunk id seqno count piece ∈ log ∧ seqno.toNat = i

def TableSourced (log : List Effect) (partials : Partials) : Prop :=
  ∀ id entry, partials.lookup id = some entry → Sourced log id entry

variable {log : List Effect} {partials : Partials} {id : UInt64} {entry : Slots}
  {seqno count : UInt8}

theorem Sourced.mono {more : List Effect} (sourced : Sourced log id entry) (grows : log ⊆ more) :
    Sourced more id entry := by
  obtain ⟨seqno, count, content, member, sized⟩ := sourced.sized
  refine ⟨⟨seqno, count, content, grows member, sized⟩, ?_⟩
  intro i piece found
  obtain ⟨seqno, count, member, position⟩ := sourced.pieces i piece found
  exact ⟨seqno, count, grows member, position⟩

theorem Sourced.store (sourced : Sourced log id entry) {content : Bytes}
    (logged : .chunk id seqno count content ∈ log) :
    Sourced log id (storePiece entry seqno content) := by
  obtain ⟨seqno₁, count₁, content₁, member, sized⟩ := sourced.sized
  refine ⟨⟨seqno₁, count₁, content₁, member, (storePiece_length ..).trans sized⟩, ?_⟩
  intro i piece found
  unfold storePiece at found
  split at found
  · by_cases here : seqno.toNat = i
    · subst here
      rw [List.getElem?_set_self (by assumption)] at found
      cases found
      exact ⟨seqno, count, logged, rfl⟩
    · rw [List.getElem?_set_ne here] at found
      exact sourced.pieces i piece found
  · exact sourced.pieces i piece found

theorem sourced_replicate {content : Bytes} (logged : .chunk id seqno count content ∈ log) :
    Sourced log id (List.replicate count.toNat none) := by
  refine ⟨⟨seqno, count, content, logged, by simp⟩, ?_⟩
  intro i piece found
  simp [List.getElem?_replicate] at found

theorem TableSourced.insert (sourced : TableSourced log partials) (new : Sourced log id entry) :
    TableSourced log (partials.insert id entry) :=
  forall_lookup_insert sourced new

theorem TableSourced.erase (sourced : TableSourced log partials) (id : UInt64) :
    TableSourced log (partials.erase id) :=
  forall_lookup_erase sourced id

/-- What one chunk does to the table: it is logged, and so is what it completes. -/
theorem assembleChunked_sourced {content : Buf} {assembly : Assembly} (several : ¬ count < 2)
    (assembled : assembleChunked partials id seqno count content = .ok assembly)
    (sourced : TableSourced log partials) :
    TableSourced (log ++ assembly.effects) assembly.partials ∧
      ∀ pieces, assembly.pieces = some pieces →
        Sourced (log ++ assembly.effects) id (pieces.map some) := by
  have grown : TableSourced (log ++ assembly.effects) partials := by
    intro id entry found
    exact (sourced id entry found).mono (List.subset_append_left _ _)
  have logged : .chunk id seqno count content.toBytes ∈ log ++ assembly.effects :=
    List.mem_append_right _ (assembleChunked_logs several assembled)
  cases assembleChunked_cases several assembled with
  | completed present full =>
    refine ⟨grown.erase id, ?_⟩
    rintro _ ⟨⟩
    exact full ▸ (grown id _ present).store logged
  | stored present gap => exact ⟨grown.insert ((grown id _ present).store logged), by simp⟩
  | created absent gap =>
    exact ⟨grown.insert ((sourced_replicate logged).store logged), by simp⟩

/-- A call logs every chunk that it stores, and what it completes is in the log. -/
theorem parsePacket_sourced {codecs : Codecs} {buf : Buf} {parsed : Parsed}
    (called : parsePacket codecs partials buf = .ok parsed)
    (sourced : TableSourced log partials) :
    TableSourced (log ++ parsed.effects) parsed.partials ∧
      ∀ id pieces, Completes partials buf id pieces →
        Sourced (log ++ parsed.effects) id (pieces.map some) := by
  revert log sourced
  refine parsePacket_induct (P := fun partials buf parsed => ∀ {log : List Effect},
    TableSourced log partials → TableSourced (log ++ parsed.effects) parsed.partials ∧
      ∀ id pieces, Completes partials buf id pieces →
        Sourced (log ++ parsed.effects) id (pieces.map some)) ?_ ?_ ?_ partials buf parsed called
  · intro partials buf result idle log sourced
    refine ⟨by simpa using sourced, ?_⟩
    rintro id pieces (⟨classified, several, _⟩ | ⟨classified, several, _⟩)
    · exact absurd (not_chunk_of_idle idle classified) several
    · exact absurd (not_chunk_of_idle idle classified) several
  · intro partials buf id seqno count content assembly classified several assembled incomplete
      log sourced
    refine ⟨(assembleChunked_sourced several assembled sourced).1, ?_⟩
    intro other pieces completes
    obtain ⟨done, complete, _⟩ :=
      (completes_chunk classified several assembled other pieces).mp completes
    simp [incomplete] at complete
  · intro partials buf id seqno count content assembly pieces chain inner classified several
      assembled complete chained calledInner ih log sourced
    obtain ⟨stored, own⟩ := assembleChunked_sourced several assembled sourced
    obtain ⟨table, later⟩ := ih stored
    rw [Parsed.after, ← List.append_assoc]
    refine ⟨table, fun other done completes => ?_⟩
    obtain ⟨_, same, here | ⟨_, rechained, inside⟩⟩ :=
      (completes_chunk classified several assembled other done).mp completes
    · obtain ⟨rfl, rfl⟩ := here
      cases complete.symm.trans same
      exact (own pieces complete).mono (List.subset_append_left _ _)
    · cases complete.symm.trans same
      cases chained.symm.trans rechained
      exact later other done inside

/-- The loop takes the datagrams one by one and sends on what they parse to; its
table holds chunks from the log. -/
theorem reaches_exchange {codecs : Codecs} {stream : List (Addr × Bytes)} {s t : LoopState Addr}
    (reached : Reaches (Step codecs) s (datagrams stream) t) :
    ∃ run, exchange codecs s.partials stream = .ok run ∧ t.sent = s.sent ++ sentOf run ∧
      (∀ rest later, exchange codecs t.partials rest = .ok later →
        exchange codecs s.partials (stream ++ rest) = .ok (run ++ later)) ∧
      ∀ log, TableSourced log s.partials → TableSourced (log ++ effects run) t.partials := by
  induction stream generalizing s with
  | nil =>
    cases reached
    exact ⟨[], rfl, by simp [sentOf], fun rest later ran => ran, by simp [effects]⟩
  | cons d rest ih =>
    cases reached with
    | next step following =>
      cases step with
      | @datagram _ parsed _ _ called =>
        obtain ⟨run, ran, sent, continued, sourced⟩ := ih following
        obtain ⟨table, sentOne⟩ := received_state s d.1 parsed
        refine ⟨(d.1, parsed) :: run, exchange_cons.mpr ⟨parsed, run, called, ran, rfl⟩, ?_, ?_, ?_⟩
        · rw [sent, sentOne]
          simp [sentOf]
        · intro more later ranMore
          exact exchange_cons.mpr ⟨parsed, run ++ later, called, continued more later ranMore, rfl⟩
        · intro log fromLog
          have grown := sourced _ (parsePacket_sourced called fromLog).1
          simpa [effects] using grown

/-- The pieces are chunks of the stream: one for each position, as many as one of
the chunks declares. -/
def MadeOf (codecs : Codecs) (stream : List (Addr × Bytes)) (id : UInt64)
    (pieces : List Bytes) : Prop :=
  (∃ seqno count content, .chunk id seqno count content ∈ effectsOf codecs stream ∧
    pieces.length = count.toNat) ∧
  ∀ i piece, pieces[i]? = some piece →
    ∃ seqno count, .chunk id seqno count piece ∈ effectsOf codecs stream ∧ seqno.toNat = i

/-- What a datagram completes is made of the chunks received up to it. -/
theorem completes_madeOf {codecs : Codecs} {before : List (Addr × Bytes)} {src : Addr}
    {bytes : Bytes} {s : LoopState Addr} (reached : Runs codecs (datagrams before) s)
    {pieces : List Bytes} (completes : Completes s.partials (.slice bytes) id pieces) :
    MadeOf codecs (before ++ [(src, bytes)]) id pieces := by
  obtain ⟨parsed, called, _⟩ := parsePacket_total codecs (runs_wellFormed reached) (.slice bytes)
  obtain ⟨earlier, _, _, continued, sourced⟩ := reaches_exchange reached
  have ran := continued [(src, bytes)] [(src, parsed)]
    (exchange_cons.mpr ⟨parsed, [], called, rfl, rfl⟩)
  have noChunks : TableSourced [] ∅ := by
    intro id entry found
    simp at found
  have made := (parsePacket_sourced called (sourced [] noChunks)).2 id pieces completes
  have sameLog : [] ++ effects earlier ++ parsed.effects =
      effectsOf codecs (before ++ [(src, bytes)]) := by
    rw [effectsOf_eq ran]
    simp [effects]
  rw [sameLog] at made
  constructor
  · obtain ⟨seqno, count, content, logged, sized⟩ := made.sized
    exact ⟨seqno, count, content, logged, by simpa using sized⟩
  · intro i piece found
    exact made.pieces i piece (by simp [found])

end Sources

section Isolation

/-- A table and the parts of it that two sides have. -/
structure Divides (table own others : Partials) : Prop where
  parts : ∀ id, table.lookup id = (own.lookup id).or (others.lookup id)
  disjoint : ∀ id, id ∉ own ∨ id ∉ others

theorem Divides.symm {table own others : Partials} (divides : Divides table own others) :
    Divides table others own where
  parts id := by
    rw [divides.parts id]
    rcases divides.disjoint id with absent | absent
    · rw [Finmap.lookup_eq_none.mpr absent, Option.none_or, Option.or_none]
    · rw [Finmap.lookup_eq_none.mpr absent, Option.none_or, Option.or_none]
  disjoint id := (divides.disjoint id).symm

theorem Divides.lookup_own {table own others : Partials} (divides : Divides table own others)
    {id : UInt64} (absent : id ∉ others) : table.lookup id = own.lookup id := by
  rw [divides.parts id, Finmap.lookup_eq_none.mpr absent, Option.or_none]

theorem divides_empty : Divides ∅ ∅ ∅ where
  parts id := by simp
  disjoint id := .inl Finmap.notMem_empty

/-- A side that reaches no entry of the other gets from the table what it gets from its
own part. -/
theorem Divides.parse {codecs : Codecs} {table own others : Partials}
    (divides : Divides table own others) {buf : Buf} {parsed : Parsed}
    (called : parsePacket codecs own buf = .ok parsed)
    (misses : ∀ id ∈ touchedIds parsed.effects, id ∉ others) :
    ∃ after, parsePacket codecs table buf = .ok ⟨parsed.result, after, parsed.effects⟩ ∧
      Divides after parsed.partials others := by
  obtain ⟨after, again, inside, outside⟩ :=
    parsePacket_local called fun id touched => divides.lookup_own (misses id touched)
  obtain ⟨_, same, _, kept⟩ := parsePacket_local called (fun _ _ => rfl)
  have same := congrArg Parsed.partials (Except.ok.inj (called.symm.trans same))
  refine ⟨after, again, ?_, ?_⟩
  · intro id
    by_cases touched : id ∈ touchedIds parsed.effects
    · rw [inside id touched, Finmap.lookup_eq_none.mpr (misses id touched), Option.or_none]
    · rw [outside id touched, divides.parts id, same, kept id touched]
  · intro id
    by_cases touched : id ∈ touchedIds parsed.effects
    · exact .inr (misses id touched)
    · rw [← Finmap.lookup_eq_none, same, kept id touched, Finmap.lookup_eq_none]
      exact divides.disjoint id

variable [DecidableEq Addr]

/-- The datagrams of `a` are parsed over a table of its own, and those of the others over
another. No chunk, directly or inside a payload that it completes, reaches an id for
which the other side has an entry at that moment. -/
def Separate (codecs : Codecs) (a : Addr) : Partials → Partials → List (Addr × Bytes) → Prop
  | _, _, [] => True
  | own, others, (src, bytes) :: rest =>
    if src = a then
      ∀ parsed, parsePacket codecs own (.slice bytes) = .ok parsed →
        (∀ id ∈ touchedIds parsed.effects, id ∉ others) ∧
          Separate codecs a parsed.partials others rest
    else
      ∀ parsed, parsePacket codecs others (.slice bytes) = .ok parsed →
        (∀ id ∈ touchedIds parsed.effects, id ∉ own) ∧
          Separate codecs a own parsed.partials rest

variable {codecs : Codecs} {a src : Addr} {own others : Partials} {bytes : Bytes}
  {rest : List (Addr × Bytes)} {parsed : Parsed} {s s' t : LoopState Addr}

theorem separate_own (called : parsePacket codecs own (.slice bytes) = .ok parsed) :
    Separate codecs a own others ((a, bytes) :: rest) ↔
      (∀ id ∈ touchedIds parsed.effects, id ∉ others) ∧
        Separate codecs a parsed.partials others rest := by
  rw [Separate, if_pos rfl, called]
  simp only [Except.ok.injEq, forall_eq']

theorem separate_other (other : src ≠ a)
    (called : parsePacket codecs others (.slice bytes) = .ok parsed) :
    Separate codecs a own others ((src, bytes) :: rest) ↔
      (∀ id ∈ touchedIds parsed.effects, id ∉ own) ∧
        Separate codecs a own parsed.partials rest := by
  rw [Separate, if_neg other, called]
  simp only [Except.ok.injEq, forall_eq']

/-- The loop `s` of all datagrams and the loop `t` of those of `a`, before the rest of the
stream. The table of `s` is divided between `a` and the others. -/
structure Isolated (codecs : Codecs) (a : Addr) (rest : List (Addr × Bytes))
    (s t : LoopState Addr) (others : Partials) : Prop where
  formed : WellFormed t.partials
  formedOthers : WellFormed others
  divides : Divides s.partials t.partials others
  separate : Separate codecs a t.partials others rest
  sent : s.sent.filter (·.1 = a) = t.sent

theorem filter_deliveries (src a : Addr) (result : Except PacketError (Option GELFMessage)) :
    (deliveries src result).filter (·.1 = a) = if src = a then deliveries src result else [] := by
  unfold deliveries
  split <;> split <;> simp_all

theorem isolated_initial {stream : List (Addr × Bytes)} (separate : Separate codecs a ∅ ∅ stream) :
    Isolated codecs a stream .initial .initial ∅ :=
  ⟨wellFormed_empty, wellFormed_empty, divides_empty, separate, rfl⟩

/-- A datagram of `a` does the same in both loops. -/
theorem Isolated.own_step (isolated : Isolated codecs a ((a, bytes) :: rest) s t others)
    (step : Step codecs s (.datagram a bytes) s') :
    ∃ t', Step codecs t (.datagram a bytes) t' ∧ Isolated codecs a rest s' t' others := by
  obtain ⟨parsed, called, formed⟩ := parsePacket_total codecs isolated.formed (.slice bytes)
  obtain ⟨misses, separate⟩ := (separate_own called).mp isolated.separate
  obtain ⟨after, again, divides⟩ := isolated.divides.parse called misses
  refine ⟨t.received a parsed, .datagram called, ?_⟩
  cases step with
  | datagram parse =>
    cases again.symm.trans parse
    refine ⟨formed, isolated.formedOthers, divides, separate, ?_⟩
    rw [(received_state s a _).2, (received_state t a parsed).2, List.filter_append,
      isolated.sent, filter_deliveries, if_pos rfl]

/-- A datagram of anyone else is not noticed in the loop of `a`. -/
theorem Isolated.other_step (isolated : Isolated codecs a ((src, bytes) :: rest) s t others)
    (other : src ≠ a) (step : Step codecs s (.datagram src bytes) s') :
    ∃ others', Isolated codecs a rest s' t others' := by
  obtain ⟨parsed, called, formed⟩ := parsePacket_total codecs isolated.formedOthers (.slice bytes)
  obtain ⟨misses, separate⟩ := (separate_other other called).mp isolated.separate
  obtain ⟨after, again, divides⟩ := isolated.divides.symm.parse called misses
  refine ⟨parsed.partials, ?_⟩
  cases step with
  | datagram parse =>
    cases again.symm.trans parse
    refine ⟨isolated.formed, formed, divides.symm, separate, ?_⟩
    rw [(received_state s src _).2, List.filter_append, isolated.sent, filter_deliveries,
      if_neg other, List.append_nil]

/-- The loop of `a` alone follows the loop of all datagrams. -/
theorem Isolated.run {before after : List (Addr × Bytes)}
    (isolated : Isolated codecs a (before ++ after) s t others)
    (reached : Reaches (Step codecs) s (datagrams before) s') :
    ∃ t' others', Reaches (Step codecs) t (datagrams (before.filter (·.1 = a))) t' ∧
      Isolated codecs a after s' t' others' := by
  induction before generalizing s t others with
  | nil =>
    cases reached
    exact ⟨t, others, .refl t, isolated⟩
  | cons d before ih =>
    obtain ⟨src, bytes⟩ := d
    cases reached with
    | next step following =>
      by_cases mine : src = a
      · subst mine
        obtain ⟨middle, stepAlone, isolated⟩ := isolated.own_step step
        obtain ⟨t', others', alone, isolated⟩ := ih isolated following
        refine ⟨t', others', ?_, isolated⟩
        rw [List.filter_cons_of_pos (by simp)]
        exact .next stepAlone alone
      · obtain ⟨middle, isolated⟩ := isolated.other_step mine step
        rw [List.filter_cons_of_neg (by simpa using mine)]
        exact ih isolated following

/-- What a datagram of `a` completes, it completes in the loop of `a` too. -/
theorem Isolated.completes (isolated : Isolated codecs a ((a, bytes) :: rest) s t others)
    {id : UInt64} {pieces : List Bytes}
    (completes : Completes s.partials (.slice bytes) id pieces) :
    Completes t.partials (.slice bytes) id pieces := by
  obtain ⟨parsed, called, _⟩ := parsePacket_total codecs isolated.formed (.slice bytes)
  obtain ⟨misses, _⟩ := (separate_own called).mp isolated.separate
  exact completes_local called
    (fun id touched => isolated.divides.lookup_own (misses id touched)) completes

end Isolation

/-- The two chunks of the small payload with one id; the second may declare any count. -/
theorem small_exchange (src₁ src₂ : Addr) (id : UInt64) {count : UInt8} (several : ¬ count < 2) :
    ∃ p q : Parsed, exchange smallCodecs ∅
        [(src₁, chunkDatagram id 0 2 (smallPayload.take 2)),
          (src₂, chunkDatagram id 1 count (smallPayload.drop 2))] = .ok [(src₁, p), (src₂, q)] ∧
      p.result = .ok none ∧ q.result = .ok (some smallMessage) := by
  obtain ⟨body₁, classified₁, same₁⟩ := classify_chunkDatagram id 0 2 (smallPayload.take 2)
  obtain ⟨body₂, classified₂, same₂⟩ := classify_chunkDatagram id 1 count (smallPayload.drop 2)
  have first := parsePacket_first_chunk smallCodecs classified₁ (by decide)
    (Finmap.lookup_empty id)
  have full : storePiece (storePiece (List.replicate (2 : UInt8).toNat none) 0 body₁.toBytes) 1
      body₂.toBytes = [smallPayload.take 2, smallPayload.drop 2].map some := by
    rw [same₁, same₂]
    rfl
  have second := parsePacket_last_chunk smallCodecs classified₂ several (Finmap.lookup_insert ∅)
    full (by decide) (by decide)
  exact ⟨_, _, exchange_cons.mpr ⟨_, _, first, exchange_cons.mpr ⟨_, _, second, rfl, rfl⟩, rfl⟩,
    rfl, rfl⟩

theorem small_pair (src₁ src₂ : Addr) (id : UInt64) {count : UInt8} (several : ¬ count < 2) :
    ∃ s, Runs smallCodecs (datagrams [(src₁, chunkDatagram id 0 2 (smallPayload.take 2)),
      (src₂, chunkDatagram id 1 count (smallPayload.drop 2))]) s ∧
      s.sent = [(src₂, smallMessage)] := by
  obtain ⟨p, q, ran, nothing, message⟩ := small_exchange src₁ src₂ id several
  obtain ⟨s, reached⟩ := exchange_reaches (s := .initial) ran
  obtain ⟨_, again, sent, _⟩ := reaches_exchange reached
  cases ran.symm.trans again
  exact ⟨s, reached, by simp [sent, LoopState.initial, sentOf, nothing, message, deliveries]⟩

/-- The other sender interrupts with an id of its own, and then takes the same id. -/
def sampleInterleaving : List (Bool × Bytes) :=
  [(false, chunkDatagram 7 0 2 (smallPayload.take 2)), (true, chunkDatagram 8 0 2 [0x61]),
    (false, chunkDatagram 7 1 2 (smallPayload.drop 2)), (true, chunkDatagram 7 0 2 [0x61])]

theorem sampleInterleaving_separate : Separate smallCodecs false ∅ ∅ sampleInterleaving := by
  obtain ⟨body₁, classified₁, same₁⟩ := classify_chunkDatagram 7 0 2 (smallPayload.take 2)
  obtain ⟨_, classified₂, _⟩ := classify_chunkDatagram 8 0 2 [0x61]
  obtain ⟨body₃, classified₃, same₃⟩ := classify_chunkDatagram 7 1 2 (smallPayload.drop 2)
  obtain ⟨_, classified₄, _⟩ := classify_chunkDatagram 7 0 2 [0x61]
  have full : storePiece (storePiece (List.replicate (2 : UInt8).toNat none) 0 body₁.toBytes) 1
      body₃.toBytes = [smallPayload.take 2, smallPayload.drop 2].map some := by
    rw [same₁, same₃]
    rfl
  have first := parsePacket_first_chunk smallCodecs classified₁ two_not_small
    (Finmap.lookup_empty 7)
  have second := parsePacket_first_chunk smallCodecs classified₂ two_not_small
    (Finmap.lookup_empty 8)
  have third := parsePacket_last_chunk smallCodecs classified₃ two_not_small
    (Finmap.lookup_insert ∅) full (by decide) (by decide)
  have fresh (entry : Slots) : ((∅ : Partials).insert 8 entry).lookup 7 = none :=
    Finmap.lookup_insert_of_ne ∅ (by decide)
  have fourth (entry : Slots) := parsePacket_first_chunk smallCodecs classified₄ two_not_small
    (fresh entry)
  refine (separate_own first).mpr ⟨?_, (separate_other (by decide) second).mpr ⟨?_,
    (separate_own third).mpr ⟨?_, (separate_other (by decide) (fourth _)).mpr ⟨?_, trivial⟩⟩⟩⟩ <;>
    simp [touchedIds, Finmap.mem_insert, Finmap.mem_erase, Finmap.notMem_empty]

end Yaffle.Gelf

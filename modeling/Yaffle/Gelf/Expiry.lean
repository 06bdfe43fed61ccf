import Yaffle.Gelf.Chunking
import Yaffle.Gelf.RecvLoop

/-! What the expiry of partial messages guarantees. An entry never outlives its
own expiry message. It may be dropped by the message of an earlier entry with
the same id, since a message carries the id only. -/
namespace Yaffle.Gelf
open Transition
variable {Addr : Type}

/-- Nothing stays for ever: the expiry of every entry is running or queued, and
handling an expiry message leaves its id absent. -/
theorem partial_outstanding {codecs : Codecs} {events : List (LoopEvent Addr)}
    {s : LoopState Addr} (run : Runs codecs events s) :
    (∀ id ∈ s.partials, (s.owner id).id = id ∧
      (s.owner id ∈ s.timers ∨ s.owner id ∈ s.channel)) ∧
    ∀ c t, Step codecs s (.deliver c) t → c.id ∉ t.partials := by
  constructor
  · intro id member
    obtain ⟨named, outstanding⟩ := (runs_tracked run).owned id member
    exact ⟨named, List.mem_append.mp outstanding⟩
  · rintro c t ⟨⟩
    exact Finmap.notMem_erase_self

/-- The receiver after the first chunk of an id. -/
def LoopState.began (s : LoopState Addr) (id : UInt64) (seqno count : UInt8) (content : Bytes) :
    LoopState Addr :=
  { s.spawn id with
    partials := s.partials.insert id
      (storePiece (List.replicate count.toNat none) seqno content) }

theorem first_chunk_step (codecs : Codecs) {s : LoopState Addr} (src : Addr) {id : UInt64}
    (absent : id ∉ s.partials) (seqno : UInt8) {count : UInt8} (several : ¬ count < 2)
    (content : Bytes) :
    Step codecs s (.datagram src (chunkDatagram id seqno count content))
      (s.began id seqno count content) := by
  obtain ⟨body, classified, same⟩ := classify_chunkDatagram id seqno count content
  have parse := parsePacket_first_chunk codecs classified several
    (Finmap.lookup_eq_none.mpr absent)
  rw [same] at parse
  have step : Step codecs s _ (s.received src _) := .datagram parse
  simpa [LoopState.received, LoopState.began, LoopState.spawn, spawnedIds, deliveries] using step

theorem last_chunk_step (codecs : Codecs) {s : LoopState Addr} (src : Addr) {id : UInt64}
    {entry : Slots} {pieces : List Bytes} (present : s.partials.lookup id = some entry)
    {seqno count : UInt8} (several : ¬ count < 2) {content : Bytes}
    (full : storePiece entry seqno content = pieces.map some) (two : 2 ≤ pieces.length)
    (plain : ¬ [0x1e, 0x0f] <+: pieces.flatten) :
    Step codecs s (.datagram src (chunkDatagram id seqno count content))
      { s with
        partials := s.partials.erase id
        sent := s.sent ++
          deliveries src (decodeVisible codecs (firstSegment pieces) pieces.flatten) } := by
  obtain ⟨body, classified, rfl⟩ := classify_chunkDatagram id seqno count content
  have parse := parsePacket_last_chunk codecs classified several present full two plain
  have step : Step codecs s _ (s.received src _) := .datagram parse
  simpa [LoopState.received, spawnedIds] using step

/-- A chunk numbered 9 of 2 is stored nowhere, and its empty entry has a timer. -/
theorem partial_outstanding_outside :
    (⟨1, 0, 0⟩ : Creation) ∈ (LoopState.initial.began 1 9 2 [0x61] : LoopState Unit).timers := by
  have run : Runs smallCodecs [.datagram () (chunkDatagram 1 9 2 [0x61])]
      (LoopState.initial.began 1 9 2 [0x61]) :=
    .one (first_chunk_step smallCodecs () Finmap.notMem_empty 9 (by decide) [0x61])
  have present : 1 ∈ (LoopState.initial.began 1 9 2 [0x61] : LoopState Unit).partials :=
    Finmap.mem_insert.mpr (.inl rfl)
  obtain ⟨_, running | queued⟩ := (partial_outstanding run).1 1 present
  · exact running
  · exact absurd queued List.not_mem_nil

/-- Handling an expiry message removes only the entry whose creation spawned the
timer, so never one that is younger than the delay. -/
def DropsOnlyOwn (codecs : Codecs) (s : LoopState Addr) : Prop :=
  ∀ c t, Step codecs s (.deliver c) t → ∀ id ∈ s.partials, id ∉ t.partials →
    s.owner id = c ∧ (s.owner id).time + expiryDelay ≤ s.now

/-- No datagram creates an entry for an id while an expiry for that id, started
by an earlier entry, is still to be delivered. -/
def FreshId (s : LoopState Addr) : LoopEvent Addr → Prop
  | .datagram _ bytes =>
    ∀ id, Creates s.partials (.slice bytes) id → ∀ c ∈ s.outstanding, c.id ≠ id
  | _ => True

/-- The outstanding expiries of present ids belong to the entries there. -/
def Current (s : LoopState Addr) : Prop :=
  ∀ c ∈ s.outstanding, c.id ∈ s.partials → s.owner c.id = c

theorem current_step {codecs : Codecs} {s t : LoopState Addr} {e : LoopEvent Addr}
    (tracked : Tracked s) (current : Current s) (fresh : FreshId s e)
    (step : Step codecs s e t) : Current t := by
  intro c member present
  rcases step_spawned step c member with earlier | ⟨_, _, id, _, _, rfl, own⟩
  · rcases step_owner step c.id present with ⟨before, same⟩ | ⟨new, running⟩
    · rw [same]
      exact current c earlier before
    · -- The entry is new, so its id had no expiry outstanding before.
      rcases step_spawned step _ (List.mem_append_left _ running) with
        old | ⟨_, _, _, rfl, creates, born, _⟩
      · have numbered := tracked.numbered _ old
        rw [new] at numbered
        exact absurd numbered (Nat.lt_irrefl _)
      · have named := congrArg Creation.id (new.symm.trans born)
        exact absurd named (fresh _ creates c earlier)
  · exact own

theorem current_drops_own {codecs : Codecs} {s : LoopState Addr} (tracked : Tracked s)
    (current : Current s) : DropsOnlyOwn codecs s := by
  intro c t step id present gone
  cases step with
  | deliver next =>
    obtain rfl : id = c.id := by
      by_contra other
      exact gone (Finmap.mem_erase.mpr ⟨other, present⟩)
    have queued : c ∈ s.channel := by simp [next]
    have own := current c (List.mem_append_right _ queued) present
    exact ⟨own, by rw [own]; exact tracked.due c queued⟩

/-- A message that is not the entry's own, once it is ahead of the entry's own,
can drop the entry: deliver what is before it in the channel, or let it time out. -/
theorem stale_drops {codecs : Codecs} {c : Creation} {s : LoopState Addr}
    (present : c.id ∈ s.partials) (stale : s.owner c.id ≠ c) (outstanding : c ∈ s.outstanding)
    (early : s.owner c.id ∉ s.channel) :
    ∃ events t, Reaches (Step codecs) s events t ∧ ¬ DropsOnlyOwn codecs t := by
  generalize queue : s.channel = channel at early
  induction channel generalizing s with
  | nil =>
    have running : c ∈ s.timers := by simpa [LoopState.outstanding, queue] using outstanding
    let late : LoopState Addr := { s with now := s.now + (c.time + expiryDelay) }
    have fire : Step codecs late (.fire c)
        { late with timers := late.timers.erase c, channel := late.channel ++ [c] } :=
      .fire running (Nat.le_add_left _ _) (by simp [late, queue, channelCapacity])
    refine ⟨_, _, .next .elapse (.one fire), fun safe => ?_⟩
    have deliver : late.channel ++ [c] = c :: [] := by simp [late, queue]
    exact stale (safe c _ (.deliver deliver) c.id present Finmap.notMem_erase_self).1
  | cons first rest ih =>
    have deliver : Step codecs s (.deliver first)
        { s with channel := rest, partials := s.partials.erase first.id } := .deliver queue
    by_cases same : first.id = c.id
    · refine ⟨[], s, .refl s, fun safe => ?_⟩
      have own := (safe first _ deliver c.id present (same ▸ Finmap.notMem_erase_self)).1
      exact early (own ▸ List.mem_cons_self)
    · have still : c ∈ s.timers ++ rest := by
        rw [LoopState.outstanding, queue] at outstanding
        rcases List.mem_append.mp outstanding with running | queued
        · exact List.mem_append_left _ running
        · rcases List.mem_cons.mp queued with rfl | later
          · exact absurd rfl same
          · exact List.mem_append_right _ later
      obtain ⟨events, t, run, unsafeState⟩ := ih
        (s := { s with channel := rest, partials := s.partials.erase first.id })
        (Finmap.mem_erase.mpr ⟨Ne.symm same, present⟩) stale still rfl
        (fun later => early (List.mem_cons_of_mem _ later))
      exact ⟨_, t, .next deliver run, unsafeState⟩

/-- Exactly the runs in which no id gets a new entry while an earlier entry's
expiry for it is outstanding are safe: they never drop another entry, and a run
that reuses an id earlier than that can always go on to drop the new entry. -/
theorem expiry_drops_own_iff_fresh (codecs : Codecs) :
    (∀ (events : List (LoopEvent Addr)) s,
      Reaches (fun s e t => FreshId s e ∧ Step codecs s e t) .initial events s →
        DropsOnlyOwn codecs s) ∧
    ∀ (events : List (LoopEvent Addr)) s e t, Runs codecs events s → Step codecs s e t →
      ¬ FreshId s e → ∃ later u, Reaches (Step codecs) t later u ∧ ¬ DropsOnlyOwn codecs u := by
  constructor
  · intro events s run
    have both : Tracked s ∧ Current s := by
      refine run.invariant (P := fun s => Tracked s ∧ Current s) ?_ ⟨tracked_initial, ?_⟩
      · intro s e t both taken
        exact ⟨tracked_step both.1 taken.2, current_step both.1 both.2 taken.1 taken.2⟩
      · intro c member
        simp [LoopState.outstanding, LoopState.initial] at member
    exact current_drops_own both.1 both.2
  · rintro events s e t run step reused
    have tracked := runs_tracked run
    cases step with
    | datagram parse =>
      simp only [FreshId, not_forall, not_not] at reused
      obtain ⟨id, creates, c, earlier, rfl⟩ := reused
      have spawned := (spawned_iff_creates parse c.id).mpr creates
      rcases received_cases _ parse with ⟨nothing, _, _⟩ | ⟨created, member, one, _, same⟩
      · simp [nothing] at spawned
      · obtain rfl : c.id = created := by simpa [one] using spawned
        rw [same]
        have number := tracked.numbered c earlier
        refine stale_drops (c := c) member ?_ ?_ ?_
        · intro own
          simp only [LoopState.spawn, if_true] at own
          exact absurd (congrArg Creation.number own) (Nat.ne_of_gt number)
        · rcases List.mem_append.mp earlier with running | queued
          · exact List.mem_append_left _ (List.mem_cons_of_mem _ running)
          · exact List.mem_append_right _ queued
        · intro queued
          have := tracked.numbered _ (List.mem_append_right _ queued)
          simp [LoopState.spawn] at this
    | receiveError => exact absurd trivial reused
    | elapse => exact absurd trivial reused
    | fire => exact absurd trivial reused
    | deliver => exact absurd trivial reused

/-- The timer of a completed message drops the next message with its id, which
is then 100 ms old. -/
theorem expiry_drops_younger : ∃ s t : LoopState Unit,
    Runs smallCodecs
      [.datagram () (chunkDatagram 1 0 2 (smallPayload.take 2)),
        .datagram () (chunkDatagram 1 1 2 (smallPayload.drop 2)), .elapse 4900,
        .datagram () (chunkDatagram 1 0 2 (smallPayload.take 2)), .elapse 100, .fire ⟨1, 0, 0⟩] s ∧
      Step smallCodecs s (.deliver ⟨1, 0, 0⟩) t ∧ 1 ∈ s.partials ∧ 1 ∉ t.partials ∧
      s.owner 1 = ⟨1, 1, 4900⟩ ∧ s.now = 5000 ∧ ¬ DropsOnlyOwn smallCodecs s := by
  let first : LoopState Unit := LoopState.initial.began 1 0 2 (smallPayload.take 2)
  have began : Step smallCodecs .initial _ first :=
    first_chunk_step smallCodecs () Finmap.notMem_empty 0 (by decide) _
  have present : first.partials.lookup 1 = some [some (smallPayload.take 2), none] :=
    Finmap.lookup_insert _
  have full : storePiece [some (smallPayload.take 2), none] 1 (smallPayload.drop 2) =
      [smallPayload.take 2, smallPayload.drop 2].map some := rfl
  have completed := last_chunk_step smallCodecs () present two_not_small full
    (by decide) (by decide)
  have again := first_chunk_step smallCodecs ()
    (s := { first with
      partials := first.partials.erase 1
      sent := first.sent ++ deliveries () (decodeVisible smallCodecs
        (firstSegment [smallPayload.take 2, smallPayload.drop 2])
        [smallPayload.take 2, smallPayload.drop 2].flatten)
      now := first.now + 4900 })
    Finmap.notMem_erase_self 0 two_not_small (smallPayload.take 2)
  have member (table : Partials) (entry : Slots) : 1 ∈ table.insert 1 entry :=
    Finmap.mem_insert.mpr (.inl rfl)
  refine ⟨_, _, .next began (.next completed (.next .elapse (.next again (.next .elapse
    (.one (.fire ?_ ?_ ?_)))))), .deliver rfl, member _ _, Finmap.notMem_erase_self, rfl, rfl, ?_⟩
  · exact List.mem_cons_of_mem _ List.mem_cons_self
  · decide
  · decide
  · intro safe
    have own := (safe ⟨1, 0, 0⟩ _ (.deliver rfl) 1 (member _ _) Finmap.notMem_erase_self).1
    exact absurd (congrArg Creation.number own) (by decide)

end Yaffle.Gelf

import Yaffle.Core.Reassembly
import Yaffle.Gelf.Packet

/-! `assemble_chunked` refines the history semantics of reassembly: the table
stores, for every id, exactly the slots of the id's current generation. -/
namespace Yaffle.Gelf
open Reassembly

/-- A chunk as the history sees it. -/
def chunkOf (seqno count : UInt8) (content : Bytes) : Chunk Bytes :=
  ⟨seqno.toNat, count.toNat, content⟩

/-- What happens to the table: a call of `assemble_chunked`, or a delivered expiry. -/
inductive TableEvent where
  | chunk (id : UInt64) (seqno count : UInt8) (content : Buf)
  | expiry (id : UInt64)

namespace TableEvent

def id : TableEvent → UInt64
  | .chunk id _ _ _ => id
  | .expiry id => id

def abstract : TableEvent → Event UInt64 Bytes
  | .chunk id seqno count content => .chunk id (chunkOf seqno count content.toBytes)
  | .expiry id => .expiry id

def apply (partials : Partials) : TableEvent → Exec Partials
  | .chunk id seqno count content => do
    let assembly ← assembleChunked partials id seqno count content
    return assembly.partials
  | .expiry id => return partials.erase id

theorem abstract_key (e : TableEvent) : e.abstract.key = e.id := by
  cases e <;> rfl

end TableEvent

/-- The generation of `id` after a history of table events. -/
def generationOf (id : UInt64) (history : List TableEvent) : Generation Bytes :=
  generation id (history.map TableEvent.abstract)

/-- The table entry of a generation; an ended one has none. -/
def stored : Generation Bytes → Option Slots
  | [] => none
  | g@(_ :: _) => some g.slots

theorem stored_append (g : Generation Bytes) (c : Chunk Bytes) :
    stored (g ++ [c]) = some (g ++ [c]).slots := by
  cases g <;> rfl

def Represents (partials : Partials) (history : List TableEvent) : Prop :=
  ∀ id, partials.lookup id = stored (generationOf id history)

theorem generationOf_append_chunk (id : UInt64) (seqno count : UInt8) (content : Buf)
    (history : List TableEvent) :
    generationOf id (history ++ [.chunk id seqno count content]) =
      (generationOf id history).extend (chunkOf seqno count content.toBytes) := by
  simp [generationOf, generation_append, follow, TableEvent.abstract]

theorem generationOf_append_expiry (id : UInt64) (history : List TableEvent) :
    generationOf id (history ++ [.expiry id]) = [] := by
  simp [generationOf, generation_append, follow, TableEvent.abstract]

theorem generationOf_other {id : UInt64} {e : TableEvent} (history : List TableEvent)
    (other : e.id ≠ id) : generationOf id (history ++ [e]) = generationOf id history := by
  simp only [generationOf, List.map_append, List.map_singleton]
  exact generation_other _ (by rwa [TableEvent.abstract_key])

theorem generationOf_filter (id : UInt64) (history : List TableEvent) :
    generationOf id (history.filter (fun e => e.id = id)) = generationOf id history := by
  have same := generation_filter id (history.map TableEvent.abstract)
  rw [List.filter_map] at same
  simpa only [generationOf, Function.comp_def, TableEvent.abstract_key] using same

theorem storePiece_slots {g : Generation Bytes} {partials : Partials} {id : UInt64}
    (represents : partials.lookup id = stored g) (seqno count : UInt8) (content : Bytes) :
    storePiece (entryOrInsert partials id count).1 seqno content =
      (g ++ [chunkOf seqno count content]).slots := by
  cases g with
  | nil =>
    have absent : partials.lookup id = none := represents
    simp [entryOrInsert, absent, storePiece, Generation.slots_singleton, chunkOf]
  | cons first rest =>
    have present : partials.lookup id = some (Generation.slots (first :: rest)) := represents
    rw [Generation.slots_append (by simp)]
    simp only [entryOrInsert, present, storePiece, chunkOf]
    rfl

/-- One call, in terms of the generation it meets. -/
theorem assembleChunked_generation {g : Generation Bytes} {partials : Partials} {id : UInt64}
    (represents : partials.lookup id = stored g) (seqno count : UInt8) (content : Buf) :
    ∃ effects, assembleChunked partials id seqno count content =
      let g := g ++ [chunkOf seqno count content.toBytes]
      if g.Covers then .ok ⟨some g.assembled, partials.erase id, effects⟩
      else .ok ⟨none, partials.insert id g.slots, effects⟩ := by
  refine ⟨.chunk id seqno count content.toBytes :: (entryOrInsert partials id count).2, ?_⟩
  rw [assembleChunked_eq]
  simp only [storePiece_slots represents, Generation.none_mem_slots, ite_not]
  split
  · rename_i covers
    simp [Generation.slots_eq_assembled covers, List.reduceOption]
  · rfl

theorem apply_represents {partials : Partials} {history : List TableEvent}
    (represents : Represents partials history) (e : TableEvent) :
    ∃ after, e.apply partials = .ok after ∧ Represents after (history ++ [e]) := by
  cases e with
  | chunk id seqno count content =>
    obtain ⟨effects, called⟩ := assembleChunked_generation (represents id) seqno count content
    simp only [TableEvent.apply, called]
    by_cases covers : Generation.Covers
        (generationOf id history ++ [chunkOf seqno count content.toBytes])
    · refine ⟨partials.erase id, by simp [covers], ?_⟩
      intro other
      by_cases same : other = id
      · subst same
        simp [generationOf_append_chunk, Generation.extend, covers, stored]
      · rw [Finmap.lookup_erase_ne same, represents other, generationOf_other _ (Ne.symm same)]
    · refine ⟨partials.insert id _, by simp [covers]; rfl, ?_⟩
      intro other
      by_cases same : other = id
      · subst same
        simp [generationOf_append_chunk, Generation.extend, covers, stored_append]
      · rw [Finmap.lookup_insert_of_ne _ same, represents other,
          generationOf_other _ (Ne.symm same)]
  | expiry id =>
    refine ⟨partials.erase id, rfl, ?_⟩
    intro other
    by_cases same : other = id
    · subst same
      simp [generationOf_append_expiry, stored]
    · rw [Finmap.lookup_erase_ne same, represents other, generationOf_other _ (Ne.symm same)]

/-- The table after a history of events, from the empty one. -/
def runEvents (history : List TableEvent) : Exec Partials :=
  history.foldlM TableEvent.apply ∅

theorem runEvents_represents (history : List TableEvent) :
    ∃ partials, runEvents history = .ok partials ∧ Represents partials history := by
  induction history using List.reverseRecOn with
  | nil => exact ⟨∅, rfl, fun id => by simp [generationOf, generation, stored]⟩
  | append_singleton history e ih =>
    obtain ⟨partials, ran, represents⟩ := ih
    obtain ⟨after, applied, represents⟩ := apply_represents represents e
    refine ⟨after, ?_, represents⟩
    have ran : history.foldlM TableEvent.apply ∅ = .ok partials := ran
    simp [runEvents, List.foldlM_append, ran, applied]

/-- A chunk after any history: its result and its effect on the table are those
of the generation it joins. -/
theorem chunk_after_history (history : List TableEvent) (id : UInt64) (seqno count : UInt8)
    (content : Buf) :
    ∃ partials assembly, runEvents history = .ok partials ∧
      assembleChunked partials id seqno count content = .ok assembly ∧
      Represents partials history ∧
      let g := generationOf id history ++ [chunkOf seqno count content.toBytes]
      assembly.pieces = (if g.Covers then some g.assembled else none) ∧
      assembly.partials = if g.Covers then partials.erase id else partials.insert id g.slots := by
  obtain ⟨partials, ran, represents⟩ := runEvents_represents history
  obtain ⟨effects, called⟩ := assembleChunked_generation (represents id) seqno count content
  by_cases covers : Generation.Covers
      (generationOf id history ++ [chunkOf seqno count content.toBytes])
  · simp only [covers, if_true] at called ⊢
    exact ⟨partials, _, ran, called, represents, rfl, rfl⟩
  · simp only [covers, if_false] at called ⊢
    exact ⟨partials, _, ran, called, represents, rfl, rfl⟩

theorem insert_stored {partials : Partials} {id : UInt64} {entry : Slots}
    (present : partials.lookup id = some entry) : partials.insert id entry = partials := by
  apply Finmap.ext_lookup
  intro other
  by_cases same : other = id
  · subst same
    rw [Finmap.lookup_insert, present]
  · rw [Finmap.lookup_insert_of_ne _ same]

/-- A chunk numbered outside its entry leaves the table as it was. -/
theorem outside_ignored {history : List TableEvent} {partials : Partials} {id : UInt64}
    (represents : Represents partials history) (started : generationOf id history ≠ [])
    {c : Chunk Bytes} (outside : (generationOf id history).len ≤ c.seqno) :
    ¬ Generation.Covers (generationOf id history ++ [c]) ∧
      partials.insert id (Generation.slots (generationOf id history ++ [c])) = partials := by
  constructor
  · intro covers
    have closed := Generation.covers_of_outside started outside covers
    exact (generation_open id _).elim started (fun opened => opened closed)
  · apply insert_stored
    rw [Generation.slots_append started, Generation.slots_length, if_neg (by omega), represents id]
    cases same : generationOf id history with
    | nil => contradiction
    | cons first rest => rfl

/-- The result of every chunk event is fixed by the generation it joins: it is
delivered exactly when it completes the positions that the first chunk of the
generation declared, with the most recent content for each position. -/
theorem assembleChunked_refines_history (history : List TableEvent) (id : UInt64)
    (seqno count : UInt8) (content : Buf) :
    ∃ partials assembly, runEvents history = .ok partials ∧
      assembleChunked partials id seqno count content = .ok assembly ∧
      let before := generationOf id history
      let g := before ++ [chunkOf seqno count content.toBytes]
      (assembly.pieces.isSome ↔ g.Covers) ∧
      (∀ pieces, assembly.pieces = some pieces →
        pieces.length = g.len ∧ (∀ i < g.len, pieces[i]? = g.latest i) ∧
        -- The generation ends: no later message contains one of its chunks.
        ∀ later, generationOf id (history ++ .chunk id seqno count content :: later) =
          generationOf id later) ∧
      (before ≠ [] → before.len ≤ seqno.toNat →
        assembly.pieces = none ∧ assembly.partials = partials) ∧
      (∀ alone result, runEvents (history.filter (fun e => e.id = id)) = .ok alone →
        assembleChunked alone id seqno count content = .ok result →
        result.pieces = assembly.pieces) ∧
      ((g.map Chunk.seqno).Nodup → ∀ sorted : Generation Bytes,
        sorted.Perm (g.filter (fun c => c.seqno < g.len)) →
        sorted.Pairwise (fun a b => a.seqno < b.seqno) →
        ∀ pieces, assembly.pieces = some pieces →
          pieces.flatten = (sorted.map Chunk.content).flatten) := by
  obtain ⟨partials, assembly, ran, called, represents, result, table⟩ :=
    chunk_after_history history id seqno count content
  refine ⟨partials, assembly, ran, called, ?_, ?_, ?_, ?_, ?_⟩
  · rw [result]
    split <;> simp [*]
  · intro pieces delivered
    rw [result] at delivered
    split at delivered
    · rename_i covers
      cases delivered
      refine ⟨Generation.assembled_length covers,
        fun i inside => Generation.assembled_get covers inside, fun later => ?_⟩
      have ended : generationOf id (history ++ [.chunk id seqno count content]) = [] := by
        rw [generationOf_append_chunk, Generation.extend, if_pos covers]
      have restarted := generation_restart ended (later.map TableEvent.abstract)
      simpa [generationOf] using restarted
    · contradiction
  · intro started outside
    obtain ⟨incomplete, unchanged⟩ :=
      outside_ignored represents started (c := chunkOf seqno count content.toBytes) outside
    rw [result, table, if_neg incomplete, if_neg incomplete]
    exact ⟨rfl, unchanged⟩
  · intro alone other ranAlone calledAlone
    obtain ⟨_, _, ran', called', _, result', _⟩ :=
      chunk_after_history (history.filter (fun e => e.id = id)) id seqno count content
    cases ranAlone.symm.trans ran'
    cases calledAlone.symm.trans called'
    rw [result, result', generationOf_filter]
  · intro distinct sorted rearranged ascending pieces delivered
    rw [result] at delivered
    split at delivered
    · rename_i covers
      cases delivered
      rw [Generation.assembled_sorted covers distinct rearranged ascending]
    · contradiction

end Yaffle.Gelf

import Yaffle.Core.Exec
import Mathlib.Tactic.Common

/-! The `bytes::Buf` cursors that the GELF receiver reads from: a contiguous
slice, or a `Chain` of two cursors. Only the first non-exhausted segment of a
chain is visible through `bytes`; all other reads see the concatenation. -/
namespace Yaffle.Gelf

abbrev Bytes := List UInt8

inductive Buf where
  | slice (bytes : Bytes)
  | chain (a b : Buf)
  deriving Repr, DecidableEq

namespace Buf

/-- The logical content, which `to_bytes` copies out and `reader` streams. -/
def toBytes : Buf → Bytes
  | .slice bytes => bytes
  | .chain a b => a.toBytes ++ b.toBytes

def remaining : Buf → Nat
  | .slice bytes => bytes.length
  | .chain a b => a.remaining + b.remaining

/-- The contiguous bytes at the cursor. -/
def bytes : Buf → Bytes
  | .slice bytes => bytes
  | .chain a b => if a.remaining = 0 then b.bytes else a.bytes

def advance : Buf → Nat → Exec Buf
  | .slice bytes, count =>
    if count ≤ bytes.length then .ok (.slice (bytes.drop count)) else .error .advancePastEnd
  | .chain a b, count =>
    if a.remaining = 0 then do
      let b ← b.advance count
      return .chain a b
    else if count ≤ a.remaining then do
      let a ← a.advance count
      return .chain a b
    else do
      -- Consume what is left of the first segment, then go on in the second.
      let rest ← a.advance a.remaining
      let b ← b.advance (count - a.remaining)
      return .chain rest b

def copyToSlice (buf : Buf) (size : Nat) : Exec (Bytes × Buf) :=
  if buf.remaining < size then .error .copyPastEnd else do
    let rest ← buf.advance size
    return (buf.toBytes.take size, rest)

@[simp] theorem remaining_eq_length (buf : Buf) : buf.remaining = buf.toBytes.length := by
  induction buf with
  | slice bytes => rfl
  | chain a b iha ihb => simp only [remaining, toBytes, List.length_append, iha, ihb]

@[simp] theorem toBytes_slice (bytes : Bytes) : (slice bytes).toBytes = bytes := rfl

@[simp] theorem toBytes_chain (a b : Buf) : (chain a b).toBytes = a.toBytes ++ b.toBytes := rfl

@[simp] theorem bytes_slice (bytes : Bytes) : (slice bytes).bytes = bytes := rfl

@[simp] theorem bytes_chain (a b : Buf) :
    (chain a b).bytes = if a.toBytes = [] then b.bytes else a.bytes := by
  simp only [bytes, remaining_eq_length, List.length_eq_zero_iff]

theorem bytes_prefix (buf : Buf) : buf.bytes <+: buf.toBytes := by
  induction buf with
  | slice bytes => exact List.prefix_rfl
  | chain a b iha ihb =>
    rw [bytes_chain, toBytes_chain]
    split
    · rename_i exhausted
      simpa only [exhausted, List.nil_append] using ihb
    · exact iha.trans (List.prefix_append _ _)

theorem advance_ok (buf : Buf) (count : Nat) (inside : count ≤ buf.toBytes.length) :
    ∃ rest, buf.advance count = .ok rest ∧ rest.toBytes = buf.toBytes.drop count := by
  induction buf generalizing count with
  | slice bytes => exact ⟨_, if_pos inside, rfl⟩
  | chain a b iha ihb =>
    simp only [toBytes, List.length_append] at inside
    simp only [advance, remaining_eq_length, List.length_eq_zero_iff]
    split
    · rename_i exhausted
      simp only [exhausted, List.length_nil, Nat.zero_add] at inside
      obtain ⟨rest, advanced, same⟩ := ihb _ inside
      refine ⟨.chain a rest, by simp [advanced], ?_⟩
      simp [toBytes, exhausted, same]
    · split
      · rename_i short
        obtain ⟨rest, advanced, same⟩ := iha _ short
        refine ⟨.chain rest b, by simp [advanced], ?_⟩
        simp [toBytes, same, List.drop_append_of_le_length short]
      · rename_i long
        have tail : count - a.toBytes.length ≤ b.toBytes.length := by omega
        obtain ⟨rest, advanced, same⟩ := ihb _ tail
        obtain ⟨done, drained, empty⟩ := iha _ (Nat.le_refl _)
        refine ⟨.chain done rest, by simp [advanced, drained], ?_⟩
        have past : a.toBytes.drop count = [] := List.drop_eq_nil_of_le (by omega)
        simp [toBytes, same, empty, List.drop_append, past]

theorem copyToSlice_ok (buf : Buf) (size : Nat) (inside : size ≤ buf.toBytes.length) :
    ∃ rest, buf.copyToSlice size = .ok (buf.toBytes.take size, rest) ∧
      rest.toBytes = buf.toBytes.drop size := by
  obtain ⟨rest, advanced, same⟩ := buf.advance_ok size inside
  have enough : ¬ buf.toBytes.length < size := by omega
  exact ⟨rest, by simp [copyToSlice, enough, advanced], same⟩

end Buf
end Yaffle.Gelf

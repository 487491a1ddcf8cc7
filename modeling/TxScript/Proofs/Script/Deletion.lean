import Mathlib.Data.List.Forall2
import TxScript.Proofs.Script.Pushes

/-!
# Deleting chunks

Chunks are deleted by the opcode that they start with, or by the data that they push. Either way a
chunk is kept or not for its own sake, so deletions do not get in each other's way, and none of them
looks across the seam of two scripts. Of the bytes of a script, those of the chunks that are kept stay
as they were written.
-/

namespace TxScript

/-- Which chunks of a script are deleted. -/
inductive Deletion where
  | startingWith (op : Opcode)
  | pushing (data : Bytes)
  deriving DecidableEq

namespace Deletion

def perform : Deletion → Script → Script
  | .startingWith op, s => s.withoutOpcode op
  | .pushing data, s => s.withoutData data

/-- Whether a chunk is not deleted. -/
def keeps : Deletion → Chunk → Bool
  | .startingWith op, c => c.opcode != op
  | .pushing data, c => data.isEmpty || c.data? != some data

variable {d e : Deletion} {s a b : Script}

theorem perform_eq : d.perform s = s.filter d.keeps := by
  cases d with
  | startingWith op => rfl
  | pushing data =>
      show (if data.isEmpty then s else s.filter fun c => c.data? != some data) =
        s.filter fun c => data.isEmpty || c.data? != some data
      cases data.isEmpty with
      | true => simp [Script.filter]
      | false => simp

theorem chunks_perform : (d.perform s).chunks = s.chunks.filter d.keeps :=
  congrArg Script.chunks perform_eq

theorem perform_perform_self : d.perform (d.perform s) = d.perform s := by
  ext1
  simp only [chunks_perform, List.filter_filter, Bool.and_self]

theorem perform_comm : d.perform (e.perform s) = e.perform (d.perform s) := by
  ext1
  simp only [chunks_perform, List.filter_filter, Bool.and_comm]

theorem bytes_perform_append :
    (d.perform (a ++ b)).bytes = (d.perform a).bytes ++ (d.perform b).bytes := by
  simp only [Script.bytes, chunks_perform, Script.chunks_append, List.filter_append,
    encodeChunks_append]

end Deletion

theorem Script.appendScript_eq_ok {a b : Script} (hb : b.isEmpty = false) :
    a.appendScript b = .ok (a ++ b) := by
  rw [appendScript, hb]
  rfl

/-! ## The bytes of each chunk -/

/-- The bytes of a row of chunks, cut into the bytes of each. -/
structure CutsInto (input : Bytes) (cs : List Chunk) (pieces : List Bytes) : Prop where
  joined : pieces.flatten = input
  read : List.Forall₂ (fun piece c => parseChunks piece = .ok [c]) pieces cs

variable {input piece : Bytes} {pieces : List Bytes} {c : Chunk} {cs : List Chunk}

theorem parseChunks_eq_singleton :
    parseChunks piece = .ok [c] ↔ piece = c.encode ∧ c.Canonical := by
  rw [parseChunks_eq_ok, encodeChunks_cons, encodeChunks_nil, List.append_nil,
    List.forall_mem_singleton, eq_comm]

theorem forall₂_parseChunks_iff :
    List.Forall₂ (fun piece c => parseChunks piece = .ok [c]) pieces cs ↔
      pieces = cs.map Chunk.encode ∧ ∀ c ∈ cs, c.Canonical := by
  simp only [parseChunks_eq_singleton]
  constructor
  · intro h
    induction h with
    | nil => exact ⟨rfl, List.forall_mem_nil _⟩
    | cons hfirst _ ih =>
        exact ⟨congrArg₂ List.cons hfirst.1 ih.1, List.forall_mem_cons.2 ⟨hfirst.2, ih.2⟩⟩
  · rintro ⟨rfl, hcs⟩
    rw [List.forall₂_map_left_iff, List.forall₂_same]
    exact fun c hc => ⟨rfl, hcs c hc⟩

/-- There is one way to cut the bytes of a row of chunks, and bytes that can be cut are those of the
row. -/
theorem cutsInto_iff :
    CutsInto input cs pieces ↔ parseChunks input = .ok cs ∧ pieces = cs.map Chunk.encode := by
  constructor
  · intro h
    obtain ⟨hsame, hcs⟩ := forall₂_parseChunks_iff.1 h.read
    refine ⟨parseChunks_eq_ok.2 ⟨?_, hcs⟩, hsame⟩
    rw [← h.joined, hsame]
    rfl
  · rintro ⟨hread, hsame⟩
    obtain ⟨hbytes, hcs⟩ := parseChunks_eq_ok.1 hread
    refine ⟨?_, forall₂_parseChunks_iff.2 ⟨hsame, hcs⟩⟩
    rw [← hbytes, hsame]
    rfl

end TxScript

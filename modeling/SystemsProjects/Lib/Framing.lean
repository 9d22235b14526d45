import Mathlib.Data.List.Basic

/-!
# Texts sent over a byte stream

A stream keeps the order of its bytes and nothing else. Whoever reads it chunk by chunk
gets the texts that were written if and only if each chunk is what was written at once.
-/

namespace SystemsProjects.Framing

variable {Byte Text : Type*}

/-- The decoder takes the encodings and nothing else. -/
structure Codec (encode : Text → List Byte) (decode : List Byte → Option Text) : Prop where
  decodes : ∀ text, decode (encode text) = some text
  encodes : ∀ {chunk text}, decode chunk = some text → chunk = encode text

/-- The chunks that calls for at most `size` bytes return of a stream. -/
structure Cut (size : Nat) (stream : List Byte) (chunks : List (List Byte)) : Prop where
  flatten : chunks.flatten = stream
  chunk : ∀ chunk ∈ chunks, chunk ≠ [] ∧ chunk.length ≤ size

/-- Chunks of nothing are none. -/
theorem Cut.eq_nil {size : Nat} {chunks : List (List Byte)} (cut : Cut size [] chunks) :
    chunks = [] := by
  cases chunks with
  | nil => rfl
  | cons chunk chunks =>
    have empty : chunk = [] := (List.append_eq_nil_iff.mp cut.flatten).1
    exact absurd empty (cut.chunk chunk List.mem_cons_self).1

/-- What is cut off in front leaves a cut of the rest. -/
theorem Cut.tail {size : Nat} {front stream : List Byte} {chunks fronts : List (List Byte)}
    (cut : Cut size (front ++ stream) (fronts ++ chunks)) (same : fronts.flatten = front) :
    Cut size stream chunks where
  flatten := by
    have whole := cut.flatten
    rw [List.flatten_append, same] at whole
    exact List.append_cancel_left whole
  chunk := fun chunk mem => cut.chunk chunk (List.mem_append_right fronts mem)

/-- Chunks that start with the encodings of all texts are these encodings. -/
theorem Cut.eq_map {size : Nat} {encode : Text → List Byte} {texts : List Text}
    {chunks : List (List Byte)} (cut : Cut size (texts.flatMap encode) chunks)
    (front : texts.map encode <+: chunks) : chunks = texts.map encode := by
  obtain ⟨rest, rfl⟩ := front
  have whole : Cut size (texts.flatMap encode ++ []) (texts.map encode ++ rest) := by
    rw [List.append_nil]
    exact cut
  have none := (whole.tail (List.flatMap_def ..).symm).eq_nil
  rw [none, List.append_nil]

end SystemsProjects.Framing

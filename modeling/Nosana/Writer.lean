import Mathlib.Data.List.Basic

set_option autoImplicit false

/- The writer through which accounts are serialized into their data. -/
namespace Nosana

inductive IoError
  | writeZero
  deriving DecidableEq, Repr

/-- A buffer of a fixed length and the position up to which it has been written. -/
structure BpfWriter where
  inner : List UInt8
  pos : Nat

namespace BpfWriter

def new (inner : List UInt8) : BpfWriter := ⟨inner, 0⟩

/-- Copies as many bytes as there is room for, and says how many these were. -/
def write (self : BpfWriter) (buf : List UInt8) : Nat × BpfWriter :=
  if self.inner.length ≤ self.pos then (0, self)
  else
    let amt := min (self.inner.length - self.pos) buf.length
    let copied := self.inner.take self.pos ++ buf.take amt ++ self.inner.drop (self.pos + amt)
    (amt, ⟨copied, self.pos + amt⟩)

def writeAll (self : BpfWriter) (buf : List UInt8) : Except IoError BpfWriter :=
  let (amt, written) := self.write buf
  if amt = buf.length then .ok written else .error .writeZero

/-- The buffer holds `done` before the position and `rest` from there on. -/
structure Holds (writer : BpfWriter) (done rest : List UInt8) : Prop where
  inner : writer.inner = done ++ rest
  pos : writer.pos = done.length

theorem holds_new (inner : List UInt8) : (new inner).Holds [] inner := ⟨rfl, rfl⟩

/-- A write fills the rest from its front on, with as much as there is room for. -/
theorem Holds.write_eq {writer : BpfWriter} {done rest : List UInt8}
    (holds : writer.Holds done rest) (buf : List UInt8) :
    writer.write buf = (min rest.length buf.length,
      ⟨done ++ buf.take rest.length ++ rest.drop buf.length,
        done.length + min rest.length buf.length⟩) := by
  obtain ⟨inner, pos⟩ := writer
  obtain ⟨rfl, rfl⟩ := holds
  unfold BpfWriter.write
  by_cases full : rest = []
  · simp [full]
  · have room : 0 < rest.length := List.length_pos_iff.mpr full
    have some : ¬ (done ++ rest).length ≤ done.length := by
      rw [List.length_append]
      omega
    have left : (done ++ rest).length - done.length = rest.length := by
      rw [List.length_append]
      omega
    have behind : (done ++ rest).drop (done.length + min rest.length buf.length) =
        rest.drop buf.length := by
      rw [List.drop_append, List.drop_eq_nil_of_le (Nat.le_add_right _ _), Nat.add_sub_cancel_left,
        List.nil_append, Nat.min_comm]
      exact List.drop_eq_drop_min.symm
    have front : buf.take (min rest.length buf.length) = buf.take rest.length :=
      List.take_eq_take_min.symm
    simp only [some, if_false, left, List.take_left, behind, front]

theorem Holds.write {writer : BpfWriter} {done rest : List UInt8}
    (holds : writer.Holds done rest) (buf : List UInt8) :
    (writer.write buf).2.Holds (done ++ buf.take rest.length) (rest.drop buf.length) := by
  rw [holds.write_eq]
  exact ⟨rfl, by rw [List.length_append, List.length_take]⟩

/-- A buffer that fits is written as a whole, and what lies behind it stays. -/
theorem Holds.writeAll {writer : BpfWriter} {done rest : List UInt8}
    (holds : writer.Holds done rest) {buf : List UInt8} (fits : buf.length ≤ rest.length) :
    ∃ written, writer.writeAll buf = .ok written ∧
      written.Holds (done ++ buf) (rest.drop buf.length) := by
  have after := holds.write buf
  rw [List.take_of_length_le fits] at after
  refine ⟨_, ?_, after⟩
  have whole : (writer.write buf).1 = buf.length := by
    rw [holds.write_eq]
    exact Nat.min_eq_right fits
  simp only [BpfWriter.writeAll, whole, if_true]

/-- Buffers that fit together are written one behind the other. -/
theorem Holds.foldlM_writeAll {writer : BpfWriter} {done rest : List UInt8}
    (holds : writer.Holds done rest) {chunks : List (List UInt8)}
    (fits : chunks.flatten.length ≤ rest.length) :
    ∃ written, chunks.foldlM BpfWriter.writeAll writer = .ok written ∧
      written.Holds (done ++ chunks.flatten) (rest.drop chunks.flatten.length) := by
  induction chunks generalizing writer done rest with
  | nil =>
      refine ⟨writer, rfl, ?_⟩
      simpa using holds
  | cons chunk chunks ih =>
      simp only [List.flatten_cons, List.length_append] at fits ⊢
      obtain ⟨written, first, holds⟩ := holds.writeAll (show chunk.length ≤ rest.length by omega)
      obtain ⟨finished, others, holds⟩ := ih holds (by rw [List.length_drop]; omega)
      refine ⟨finished, ?_, ?_⟩
      · rw [List.foldlM_cons, first]
        exact others
      · rw [List.append_assoc, List.drop_drop] at holds
        exact holds

end BpfWriter

end Nosana

import Nosana.Machine
import Nosana.Writer

set_option autoImplicit false

/- Any calls of the writer, one after the other. -/
namespace Nosana

/-- `sol_memcpy`, which has to stay within both slices. -/
def memcpy (dst src : List UInt8) (n : Nat) : Option (List UInt8) :=
  if n ≤ dst.length ∧ n ≤ src.length then some (src.take n ++ dst.drop n) else none

namespace BpfWriter

inductive Call
  | write (buf : List UInt8)
  | writeAll (buf : List UInt8)

def Call.buf : Call → List UInt8
  | write buf => buf
  | writeAll buf => buf

/-- What a call returns: how much it wrote, or whether it wrote everything. -/
inductive Reply
  | amount (amt : Nat)
  | result (result : Except IoError Unit)

/-- A call, and the writer it leaves. When it fails it has written what there was room for. -/
def perform (self : BpfWriter) : Call → Reply × BpfWriter
  | .write buf =>
    let (amt, written) := self.write buf
    (.amount amt, written)
  | .writeAll buf =>
    let (amt, written) := self.write buf
    (.result (if amt = buf.length then .ok () else .error .writeZero), written)

def remaining (self : BpfWriter) : Nat := self.inner.length - self.pos

abbrev Event := Machine.Event BpfWriter Call

def step (self : BpfWriter) (call : Call) : Except IoError BpfWriter := .ok (self.perform call).2

def run (self : BpfWriter) (calls : List Call) : BpfWriter := Machine.run step self calls

def trace (self : BpfWriter) (calls : List Call) : List Event := Machine.trace step self calls

/-- The bytes that a call reports as written. A failed `writeAll` has written the longest part of
the front that fits. -/
def reported (event : Event) : List UInt8 :=
  match (event.before.perform event.action).1 with
  | .amount amt => event.action.buf.take amt
  | .result (.ok _) => event.action.buf
  | .result (.error _) => event.action.buf.take event.before.remaining

/-- A call changes the writer by one copy into what is left of the buffer. -/
def Copies (event : Event) : Prop :=
  event.before.pos ≤ event.before.inner.length ∧
    ∃ amt copied, memcpy (event.before.inner.drop event.before.pos) event.action.buf amt =
      some copied ∧
    event.after = ⟨event.before.inner.take event.before.pos ++ copied, event.before.pos + amt⟩

variable {writer : BpfWriter} {done rest : List UInt8}

/-- Both calls leave the same. -/
theorem perform_snd (self : BpfWriter) (call : Call) :
    (self.perform call).2 = (self.write call.buf).2 := by
  cases call <;> rfl

theorem Holds.remaining (holds : writer.Holds done rest) : writer.remaining = rest.length := by
  unfold BpfWriter.remaining
  rw [holds.inner, holds.pos, List.length_append, Nat.add_sub_cancel_left]

theorem Holds.writeAll_ok_iff (holds : writer.Holds done rest) (buf : List UInt8) :
    (writer.perform (.writeAll buf)).1 = .result (.ok ()) ↔ buf.length ≤ writer.remaining := by
  rw [holds.remaining]
  simp only [perform, holds.write_eq, Reply.result.injEq]
  by_cases fits : buf.length ≤ rest.length
  · simp [fits]
  · have short : ¬ min rest.length buf.length = buf.length := by omega
    simp [fits, short]

theorem Holds.reported_eq (holds : writer.Holds done rest) (call : Call) (after : BpfWriter) :
    reported ⟨writer, call, after⟩ = call.buf.take rest.length := by
  cases call with
  | write buf =>
      simp only [reported, perform, holds.write_eq, Call.buf]
      exact List.take_eq_take_min.symm
  | writeAll buf =>
      simp only [reported, perform, holds.write_eq, holds.remaining, Call.buf]
      by_cases fits : buf.length ≤ rest.length
      · simp [fits, List.take_of_length_le fits]
      · have short : ¬ min rest.length buf.length = buf.length := by omega
        simp [short]

theorem Holds.copies (holds : writer.Holds done rest) (call : Call) :
    Copies ⟨writer, call, (writer.perform call).2⟩ := by
  have front : writer.inner.take writer.pos = done := by
    rw [holds.inner, holds.pos, List.take_left]
  have behind : writer.inner.drop writer.pos = rest := by
    rw [holds.inner, holds.pos, List.drop_left]
  constructor
  · rw [holds.inner, holds.pos, List.length_append]
    exact Nat.le_add_right _ _
  · refine ⟨min rest.length call.buf.length, call.buf.take rest.length ++ rest.drop call.buf.length,
      ?_, ?_⟩
    · have inside : min rest.length call.buf.length ≤ rest.length ∧
          min rest.length call.buf.length ≤ call.buf.length := by omega
      simp only [behind, memcpy, inside, and_self, if_true, Option.some.injEq]
      congr 1
      · exact List.take_eq_take_min.symm
      · rw [Nat.min_comm]
        exact List.drop_eq_drop_min.symm
    · show (writer.perform call).2 = ⟨writer.inner.take writer.pos ++ _, writer.pos + _⟩
      rw [front, holds.pos, perform_snd, holds.write_eq, List.append_assoc]

/-- What has been reported is at the start of the buffer, and the rest is as it was. -/
structure Progress (buffer : List UInt8) (past : List Event) (writer : BpfWriter) : Prop where
  holds : writer.Holds (past.flatMap reported) (buffer.drop (past.flatMap reported).length)
  within : (past.flatMap reported).length ≤ buffer.length

theorem Progress.next {buffer : List UInt8} {past : List Event}
    (progress : Progress buffer past writer) (call : Call) :
    Progress buffer (past ++ [⟨writer, call, (writer.perform call).2⟩])
      (writer.perform call).2 := by
  obtain ⟨holds, within⟩ := progress
  have bytes : (past ++ [⟨writer, call, (writer.perform call).2⟩] : List Event).flatMap reported =
      past.flatMap reported ++
        call.buf.take (buffer.drop (past.flatMap reported).length).length := by
    rw [List.flatMap_append, List.flatMap_singleton, holds.reported_eq]
  have after := holds.write call.buf
  rw [← perform_snd] at after
  constructor
  · rw [bytes, List.length_append, ← List.drop_drop, List.length_take, Nat.min_comm,
      ← List.drop_eq_drop_min]
    exact after
  · rw [bytes, List.length_append, List.length_take, List.length_drop]
    omega

/-- Any calls write one behind the other, up to the end of the buffer. -/
theorem progress_run (buffer : List UInt8) (calls : List Call) :
    Progress buffer (trace (new buffer) calls) (run (new buffer) calls) := by
  apply Machine.run_induction ⟨holds_new buffer, Nat.zero_le _⟩
  intro past writer call after progress success
  cases success
  exact progress.next call

example : (trace (new [0, 0, 0]) [.write [1, 2], .writeAll [3, 4], .writeAll []]).flatMap reported =
    [1, 2, 3] := by decide

/-- Before each call as well. -/
theorem progress_trace (buffer : List UInt8) (calls : List Call) :
    ∀ event ∈ trace (new buffer) calls, ∃ past, Progress buffer past event.before := by
  intro event member
  obtain ⟨past, later, split⟩ := List.append_of_mem member
  obtain ⟨front, same, before⟩ := Machine.exists_before split
  refine ⟨past, ?_⟩
  rw [← same, ← before]
  exact progress_run buffer front

end BpfWriter

end Nosana

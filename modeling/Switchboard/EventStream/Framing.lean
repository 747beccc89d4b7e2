/-!
# Cutting an event stream into frames

A frame ends at a blank line: at LF LF or at CR LF CR LF, whichever comes first in the stream.

- `cut?`: the first frame of a buffer, the blank line that ended it, and the rest.
- `drain`: all complete frames of a buffer, and what is left.
- `eq_of_cut?`: cutting loses no octet.
-/

namespace Switchboard.EventStream

/-- Octets as they arrive. -/
abbrev Bytes := List UInt8

def lf : UInt8 := 10

def cr : UInt8 := 13

/-- The two forms of the end of a frame. -/
inductive Delimiter
  | lfLf
  | crLfCrLf
  deriving DecidableEq, Repr

def Delimiter.bytes : Delimiter → Bytes
  | lfLf => [lf, lf]
  | crLfCrLf => [cr, lf, cr, lf]

/-- A frame that was cut off a buffer. -/
structure Cut where
  frame : Bytes
  delimiter : Delimiter
  rest : Bytes
  deriving DecidableEq, Repr

/-- The delimiter that a text starts with, and what follows it. -/
def delimiter? : Bytes → Option (Delimiter × Bytes)
  | 10 :: 10 :: rest => some (.lfLf, rest)
  | 13 :: 10 :: 13 :: 10 :: rest => some (.crLfCrLf, rest)
  | _ => none

/-- Looks for the first delimiter, keeping what was passed in reverse. -/
def cutFrom (passed : Bytes) : Bytes → Option Cut
  | [] => none
  | b :: rest =>
    match delimiter? (b :: rest) with
    | some (d, after) => some ⟨passed.reverse, d, after⟩
    | none => cutFrom (b :: passed) rest

/-- The first complete frame of a buffer. -/
def cut? (buffer : Bytes) : Option Cut := cutFrom [] buffer

theorem eq_of_delimiter? {s r : Bytes} {d : Delimiter} (h : delimiter? s = some (d, r)) :
    s = d.bytes ++ r := by
  unfold delimiter? at h
  split at h
  · simp only [Option.some.injEq, Prod.mk.injEq] at h
    simp [← h.1, ← h.2, Delimiter.bytes, lf]
  · simp only [Option.some.injEq, Prod.mk.injEq] at h
    simp [← h.1, ← h.2, Delimiter.bytes, lf, cr]
  · simp at h

theorem eq_of_cutFrom {passed s : Bytes} {c : Cut} (h : cutFrom passed s = some c) :
    passed.reverse ++ s = c.frame ++ c.delimiter.bytes ++ c.rest := by
  induction s generalizing passed with
  | nil => simp [cutFrom] at h
  | cons b rest ih =>
    simp only [cutFrom] at h
    split at h
    · next hd =>
      simp only [Option.some.injEq] at h
      simp [← h, eq_of_delimiter? hd]
    · simpa using ih h

/-- Cutting loses no octet. -/
theorem eq_of_cut? {s : Bytes} {c : Cut} (h : cut? s = some c) :
    s = c.frame ++ c.delimiter.bytes ++ c.rest := by
  simpa using eq_of_cutFrom h

theorem length_rest_lt {s : Bytes} {c : Cut} (h : cut? s = some c) :
    c.rest.length < s.length := by
  rw [eq_of_cut? h]
  cases c.delimiter <;> simp [Delimiter.bytes] <;> omega

/-- All complete frames of a buffer, and what is left. -/
def drain (buffer : Bytes) : List Cut × Bytes :=
  match _h : cut? buffer with
  | none => ([], buffer)
  | some c =>
    let (cuts, left) := drain c.rest
    (c :: cuts, left)
termination_by buffer.length
decreasing_by exact length_rest_lt _h

end Switchboard.EventStream

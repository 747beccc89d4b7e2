import Mathlib.Tactic.SplitIfs
import Switchboard.Proofs.Text.Lossy
import Switchboard.Push.Subscription

/-!
# The text of an error body

An error body is read piece by piece, and no further than the limit. The text that is reported for it
is a matter of its octets alone: where they were cut into pieces, whether a character was cut in two,
and whether the body broke off behind them leave no trace in it.

- `Shown`: the text that stands for an error body.
- `errorTextFrom_eq`: reading the pieces comes to what the whole body comes to.
- `error_text_capped`: the text of an error body, however it arrives.
-/

namespace Switchboard.Http

open Text.Utf8 (Lossy decodeLossy decodeLossy_eq_iff)

variable {body seen : List UInt8} {text : String}

/-- The text that stands for an error body: all of it, or what fits under the limit and a mark. -/
inductive Shown (body : List UInt8) : String → Prop
  | whole {text : String} (h : body.length ≤ 32768) (ht : Lossy body text.toList) : Shown body text
  | cut {text : String} (h : 32768 < body.length) (ht : Lossy (body.take 32768) text.toList) :
    Shown body (text ++ "...(truncated)")

/-- The text of an error body that is there at once. -/
def capped (body : List UInt8) : String :=
  if errorLimit < body.length then decodeLossy (body.take errorLimit) ++ truncationMark
  else decodeLossy body

theorem capped_eq_iff : capped body = text ↔ Shown body text := by
  constructor
  · rintro rfl
    unfold capped
    split_ifs with h
    · exact .cut h (decodeLossy_eq_iff.mp rfl)
    · exact .whole (Nat.le_of_not_lt h) (decodeLossy_eq_iff.mp rfl)
  · rintro (⟨h, ht⟩ | ⟨h, ht⟩)
    · have hshort : ¬ errorLimit < body.length := Nat.not_lt.mpr h
      rw [capped, if_neg hshort, decodeLossy_eq_iff.mpr ht]
    · have hlong : errorLimit < body.length := h
      have hbegin : decodeLossy (body.take errorLimit) = _ := decodeLossy_eq_iff.mpr ht
      rw [capped, if_pos hlong, hbegin]
      rfl

/-- As long as the limit is not passed, nothing but the octets that were read matters. -/
theorem errorTextFrom_eq (h : seen.length ≤ errorLimit) (chunks : List (List UInt8)) :
    errorTextFrom seen chunks = capped (seen ++ chunks.flatten) := by
  induction chunks generalizing seen with
  | nil =>
    rw [List.flatten_nil, List.append_nil, errorTextFrom, capped, if_neg (Nat.not_lt.mpr h)]
  | cons chunk chunks ih =>
    rw [errorTextFrom, List.flatten_cons, ← List.append_assoc]
    split_ifs with hpassed
    · -- What would have followed is behind the limit.
      have hlong : errorLimit < (seen ++ chunk ++ chunks.flatten).length := by
        rw [List.length_append]
        omega
      rw [capped, if_pos hlong, List.take_append_of_le_length (Nat.le_of_lt hpassed)]
    · exact ih (Nat.le_of_not_lt hpassed)

theorem errorText_eq (chunks : List (List UInt8)) : errorText chunks = capped chunks.flatten :=
  errorTextFrom_eq (Nat.zero_le _) chunks

/-- The end of an error body has come, or will not be waited for. -/
theorem awaited_eq_false_iff {i : Incoming} :
    i.awaited = false ↔ (i.ending = .open → 32768 < i.chunks.flatten.length) := by
  unfold Incoming.awaited
  rw [Bool.and_eq_false_imp, beq_iff_eq, decide_eq_false_iff_not, Nat.not_le]
  rfl

/-- **The text of an error body.** It is the text of the whole body, with U+FFFD for what is
ill-formed, or that of its first 32768 octets with a mark behind it, and it is the same for every way
of cutting the body into pieces. An exchange and an attempt to subscribe report just this text, whether
the body is complete or breaks off; the attempt waits for the end of a body within the limit. -/
theorem error_text_capped (chunks : List (List UInt8)) :
    (∀ text, errorText chunks = text ↔ Shown chunks.flatten text) ∧
    (∀ others : List (List UInt8), others.flatten = chunks.flatten →
      errorText others = errorText chunks) ∧
    ∀ status fields ending, isSuccess status = false →
      Incoming.read ⟨status, fields, chunks, ending⟩ =
        .ok ⟨status, statusText status, errorText chunks⟩ ∧
      ((ending = .open → 32768 < chunks.flatten.length) →
        ∀ s : Subscription, s.attempt (some ⟨status, fields, chunks, ending⟩) =
          ⟨[], some ⟨.status status (errorText chunks), fields⟩, s⟩) := by
  refine ⟨fun text => ?_, fun others hsame => ?_, fun status fields ending hstatus => ⟨?_, ?_⟩⟩
  · rw [errorText_eq]
    exact capped_eq_iff
  · rw [errorText_eq, errorText_eq, hsame]
  · unfold Incoming.read
    rw [if_neg (by simp [hstatus])]
  · intro hends s
    have hread : Incoming.awaited ⟨status, fields, chunks, ending⟩ = false :=
      awaited_eq_false_iff.mpr hends
    unfold Subscription.attempt
    dsimp only
    rw [if_neg (by simp [hstatus]), if_neg (by simp [hread])]

/-- A body that the limit cuts inside a character, and whose pieces cut it there too. -/
theorem error_text_capped_inside_character :
    let chunks : List (List UInt8) := [List.replicate 32767 97, [0xC3], [], [0xA9, 98]]
    let text := String.ofList (List.replicate 32767 'a' ++ ['\uFFFD']) ++ "...(truncated)"
    let s := Subscription.new "http://h" "/s" ⟨.ofMillis 500, .ofSecs 8, Backoff.defaultJitter⟩
    errorText chunks = text ∧ errorText [chunks.flatten] = errorText chunks ∧
      isSuccess 500 = false ∧
      Incoming.read ⟨500, [], chunks, .cut⟩ = .ok ⟨500, statusText 500, errorText chunks⟩ ∧
      s.attempt (some ⟨500, [], chunks, .cut⟩) =
        ⟨[], some ⟨.status 500 (errorText chunks), []⟩, s⟩ := by
  intro chunks text s
  obtain ⟨htext, hsame, hreports⟩ := error_text_capped chunks
  obtain ⟨hread, hattempt⟩ := hreports 500 [] .cut rfl
  have hbody : chunks.flatten = List.replicate 32767 97 ++ [0xC3, 0xA9, 98] := rfl
  have hshown : Shown chunks.flatten text := by
    have hend : Lossy [0xC3] ['\uFFFD'] := by
      have hdecoded : decodeLossy [0xC3] = String.ofList ['\uFFFD'] := rfl
      rw [decodeLossy_eq_iff, String.toList_ofList] at hdecoded
      exact hdecoded
    have hletters (n : Nat) :
        (List.replicate n 'a').flatMap String.utf8EncodeChar = List.replicate n 97 := by
      rw [List.flatMap_replicate]
      exact List.flatten_replicate_singleton
    have hchars := hend.chars (List.replicate 32767 'a')
    rw [hletters] at hchars
    have hlength : (List.replicate 32767 (97 : UInt8)).length = 32767 := List.length_replicate
    rw [hbody]
    refine .cut ?_ ?_
    · rw [List.length_append, hlength]
      decide
    · rw [List.take_append, hlength, List.take_of_length_le (by rw [hlength]; decide),
        String.toList_ofList]
      exact hchars
  exact ⟨(htext text).mpr hshown, hsame _ (by simp), rfl, hread, hattempt (by simp) s⟩

end Switchboard.Http

import Switchboard.Proofs.EventStream.Boundary

/-!
# Draining a buffer that grows

Frames are cut off a buffer until it has no boundary left. As boundaries do not move when the buffer
grows, it does not matter in which pieces a stream arrives; and cutting gives every octet back.

- `frames`, `rest`: the complete frames of a buffer, and what is left.
- `frames_append`, `rest_append`: draining in two pieces is draining at once.
- `Drains`: frames that are cut off a buffer one after the other.
- `draining_loses_nothing`: the frames with their blank lines and the rest make up the buffer.

`Drains` is the relation of a caller that cuts as often as it likes. So termination is not read off the
recursion of `drain`: `Drains.length_le` bounds the number of cuts of every caller, as each takes two
octets at least, and `Drains.drain_eq` says that whoever goes on to the end has done what `drain` does.
-/

namespace Switchboard.EventStream

variable {s r : Bytes} {c : Cut} {cs : List Cut}

/-- The complete frames of a buffer, in order. -/
def frames (buffer : Bytes) : List Bytes := (drain buffer).1.map fun c => c.frame

/-- What is left of a buffer behind its complete frames. -/
def rest (buffer : Bytes) : Bytes := (drain buffer).2

theorem drain_of_cut? (h : cut? s = some c) :
    drain s = (c :: (drain c.rest).1, (drain c.rest).2) := by
  rw [drain]
  split
  · rename_i hnone
    rw [h] at hnone
    cases hnone
  · rename_i c' hsome
    obtain rfl : c = c' := Option.some.inj (h.symm.trans hsome)
    rfl

theorem drain_of_cut?_eq_none (h : cut? s = none) : drain s = ([], s) := by
  rw [drain]
  split
  · rfl
  · rename_i c hsome
    rw [h] at hsome
    cases hsome

/-- Draining is cutting until there is no cut. -/
theorem drain_induction {P : Bytes → Prop} (none : ∀ s, cut? s = none → P s)
    (cut : ∀ s c, cut? s = some c → P c.rest → P s) (s : Bytes) : P s := by
  induction hn : s.length using Nat.strong_induction_on generalizing s with
  | _ n ih =>
    rcases hc : cut? s with _ | c
    · exact none s hc
    · exact cut s c hc (ih _ (hn ▸ length_rest_lt hc) _ rfl)

theorem frames_of_cut? (h : cut? s = some c) : frames s = c.frame :: frames c.rest := by
  rw [frames, drain_of_cut? h]
  rfl

theorem rest_of_cut? (h : cut? s = some c) : rest s = rest c.rest := by
  rw [rest, drain_of_cut? h]
  rfl

theorem frames_of_cut?_eq_none (h : cut? s = none) : frames s = [] := by
  rw [frames, drain_of_cut?_eq_none h]
  rfl

theorem rest_of_cut?_eq_none (h : cut? s = none) : rest s = s := by
  rw [rest, drain_of_cut?_eq_none h]

theorem length_rest_le (s : Bytes) : (rest s).length ≤ s.length := by
  induction s using drain_induction with
  | none s h => rw [rest_of_cut?_eq_none h]
  | cut s c h ih =>
    rw [rest_of_cut? h]
    exact Nat.le_trans ih (Nat.le_of_lt (length_rest_lt h))

/-- The frames of a stream are those of its beginning, then those of what that left and what came
after. -/
theorem frames_append (s t : Bytes) : frames (s ++ t) = frames s ++ frames (rest s ++ t) := by
  induction s using drain_induction with
  | none s h => rw [frames_of_cut?_eq_none h, rest_of_cut?_eq_none h, List.nil_append]
  | cut s c h ih =>
    rw [frames_of_cut? (cut?_append h t), frames_of_cut? h, rest_of_cut? h, ih, List.cons_append]

theorem rest_append (s t : Bytes) : rest (s ++ t) = rest (rest s ++ t) := by
  induction s using drain_induction with
  | none s h => rw [rest_of_cut?_eq_none h]
  | cut s c h ih => rw [rest_of_cut? (cut?_append h t), rest_of_cut? h, ih]

@[simp] theorem frames_nil : frames [] = [] := frames_of_cut?_eq_none rfl

@[simp] theorem rest_nil : rest [] = [] := rest_of_cut?_eq_none rfl

/-! ### Frames one after the other -/

/-- A frame with the delimiter behind it. -/
def Cut.bytes (c : Cut) : Bytes := c.frame ++ c.delimiter.bytes

/-- The frames `cs` are cut off the buffer `s` one after the other, which leaves `r`. There may be more
to cut off. -/
inductive Drains : Bytes → List Cut → Bytes → Prop
  | stop (s : Bytes) : Drains s [] s
  | next {s : Bytes} {c : Cut} {cs : List Cut} {r : Bytes} (h : cut? s = some c)
      (more : Drains c.rest cs r) : Drains s (c :: cs) r

/-- Each cut takes at least the two octets of a delimiter away. -/
theorem length_rest_add_le (h : cut? s = some c) : c.rest.length + 2 ≤ s.length := by
  have htwo := c.delimiter.two_le_length
  rw [eq_of_cut? h, List.length_append, List.length_append]
  omega

theorem drains_drain (s : Bytes) : Drains s (drain s).1 (drain s).2 := by
  induction s using drain_induction with
  | none s h =>
    rw [drain_of_cut?_eq_none h]
    exact .stop s
  | cut s c h ih =>
    rw [drain_of_cut? h]
    exact .next h ih

theorem cut?_rest (s : Bytes) : cut? (rest s) = none := by
  induction s using drain_induction with
  | none s h => rwa [rest_of_cut?_eq_none h]
  | cut s c h ih => rwa [rest_of_cut? h]

namespace Drains

theorem length_le (h : Drains s cs r) : 2 * cs.length + r.length ≤ s.length := by
  induction h with
  | stop s => simp
  | next h more ih =>
    have hshorter := length_rest_add_le h
    rw [List.length_cons]
    omega

/-- What is cut off and what is left make up the buffer. -/
theorem eq_flatMap (h : Drains s cs r) : s = cs.flatMap Cut.bytes ++ r := by
  induction h with
  | stop s => rfl
  | next h more ih =>
    rw [eq_of_cut? h, List.flatMap_cons, List.append_assoc (Cut.bytes _), ← ih]
    rfl

theorem unbroken (h : Drains s cs r) : ∀ c ∈ cs, Unbroken c.frame := by
  induction h with
  | stop s => simp
  | next h more ih =>
    intro c hc
    rcases List.mem_cons.mp hc with rfl | hc
    · exact (unbroken_of_cut? h).within (List.prefix_append _ _).isInfix
    · exact ih c hc

/-- Whoever goes on from where the cutting stopped cuts off what draining does. -/
theorem drain_eq (h : Drains s cs r) : drain s = (cs ++ (drain r).1, (drain r).2) := by
  induction h with
  | stop s => rfl
  | next h more ih => rw [drain_of_cut? h, ih, List.cons_append]

end Drains

/-- **Draining loses no octet.** Cutting frames off a buffer comes to an end, as each cut leaves less of
it. Wherever it stops, the frames with their delimiters and what is left make up the buffer, and no
frame has a delimiter in it; it ends with what `drain` gives and a rest that has none either. Each cut
is made at the boundary, the earlier of the first delimiters in either form, and more octets do not
move that. -/
theorem draining_loses_nothing (s : Bytes) :
    (Drains s (drain s).1 (drain s).2 ∧ cut? (drain s).2 = none) ∧
    (∀ cs r, Drains s cs r →
      2 * cs.length + r.length ≤ s.length ∧
      s = cs.flatMap (fun c => c.frame ++ c.delimiter.bytes) ++ r ∧
      (∀ c ∈ cs, Unbroken c.frame) ∧
      (cut? r = none → Unbroken r ∧ drain s = (cs, r))) ∧
    (∀ c, cut? s = some c → c.rest.length < s.length) ∧
    (cut? s = none → drain s = ([], s)) ∧
    boundary? s = earlier? (place? .lfLf s) (place? .crLfCrLf s) ∧
    ∀ p n, boundary? s = some (p, n) →
      (∃ c, cut? s = some c ∧ c.frame = s.take p ∧ c.rest = s.drop (p + n)) ∧
      ∀ t, boundary? (s ++ t) = some (p, n) := by
  refine ⟨⟨drains_drain s, cut?_rest s⟩, fun cs r h => ?_, fun c h => length_rest_lt h,
    drain_of_cut?_eq_none, boundary?_eq_earlier s, fun p n h => ?_⟩
  · refine ⟨h.length_le, h.eq_flatMap, h.unbroken, fun hend => ⟨cut?_eq_none_iff.mp hend, ?_⟩⟩
    rw [h.drain_eq, drain_of_cut?_eq_none hend, List.append_nil]
  · exact ⟨cut?_of_boundary? h, boundary?_append h⟩

/-- A line that ends with CR LF before a bare LF, a frame without lines, and a delimiter that has only
begun. -/
theorem draining_loses_nothing_mixed :
    let s : Bytes := [97, 13, 10, 10, 13, 10, 13, 10, 98, 13, 10, 13]
    let r : Bytes := [98, 13, 10, 13]
    let cs : List Cut := [⟨[97, 13], .lfLf, [13, 10, 13, 10] ++ r⟩, ⟨[], .crLfCrLf, r⟩]
    Drains s cs r ∧ cut? r = none ∧ drain s = (cs, r) ∧ drain r = ([], r) ∧
      ([13, 10, 13, 10] ++ r).length < s.length ∧
      boundary? s = some (2, 2) ∧ boundary? (s ++ [10]) = some (2, 2) := by
  intro s r cs
  have hdrains : Drains s cs r := .next rfl (.next rfl (.stop r))
  have hplace : boundary? s = some (2, 2) := rfl
  obtain ⟨-, hruns, hshorter, -, -, hkeeps⟩ := draining_loses_nothing s
  obtain ⟨-, -, -, hend⟩ := hruns cs r hdrains
  obtain ⟨-, -, -, hidle, -, -⟩ := draining_loses_nothing r
  exact ⟨hdrains, rfl, (hend rfl).2, hidle rfl, hshorter _ rfl, hplace, (hkeeps 2 2 hplace).2 [10]⟩

end Switchboard.EventStream

import Mathlib.Tactic.SplitIfs
import Switchboard.Text.Utf8

/-!
# ASCII octets in UTF-8

An octet below 0x80 is a character by itself wherever it stands: it is never part of another
character, and it ends one that is unfinished. So a text may be cut at its line ends before it is
decoded.

- `Unfinished.Legal`: what holds of every unfinished character, kept by `feed_legal`.
- `pieces_append_cons`: decoding splits at an ASCII octet.
- `mem_of_some_mem_pieces`: an ASCII character stands for an octet of its own.
- `chars?`: the characters of octets, if they are well formed; `chars?_append_cons`.

Both facts are about the automaton of `Progress.feed` and hold because of its bounds: a character that
has begun takes only octets from 0x80 on, and its number is past ASCII when it is complete. The bounds
are part of the state, so they are an invariant of decoding and not a property of the definition. NUL is
left out of `mem_of_some_mem_pieces`, because a number that is no character is taken for it.
-/

namespace Switchboard.Text.Utf8

variable {a c : List UInt8} {b : UInt8} {p : Progress} {u : Unfinished}

/-- What is unfinished needs more octets, none of them ASCII, and becomes no ASCII character. -/
structure Unfinished.Legal (u : Unfinished) : Prop where
  low : 0x80 ≤ u.low
  last : u.missing ≤ 1 → 2 ≤ u.bits
  more : 1 < u.missing → 1 ≤ u.bits ∨ 0x90 ≤ u.low

theorem legal_of_start (h : start b = .unfinished u) : u.Legal := by
  simp only [start, Bool.and_eq_true, decide_eq_true_eq, beq_iff_eq] at h
  split_ifs at h <;> simp only [Start.unfinished.injEq] at h
  all_goals
    subst h
    constructor <;> dsimp only <;> omega

theorem start_of_lt (h : b.toNat < 0x80) : start b = .whole (Char.ofNat b.toNat) := by
  simp only [start, if_pos h]

theorem eq_of_start_whole {x : Char} (h : start b = .whole x) :
    b.toNat < 0x80 ∧ x = Char.ofNat b.toNat := by
  simp only [start] at h
  split_ifs at h with hb
  cases h
  exact ⟨hb, rfl⟩

/-! ### Octet by octet -/

/-- What was decoded before is only passed on. -/
theorem feed_append (p : Progress) (before : List (Option Char)) (b : UInt8) :
    Progress.feed ⟨p.pieces ++ before, p.unfinished⟩ b =
      ⟨(p.feed b).pieces ++ before, (p.feed b).unfinished⟩ := by
  have hbegin (ps : List (Option Char)) : Progress.begin (ps ++ before) b =
      ⟨(Progress.begin ps b).pieces ++ before, (Progress.begin ps b).unfinished⟩ := by
    unfold Progress.begin
    split <;> rfl
  rcases p with ⟨ps, _ | u⟩
  · exact hbegin ps
  · unfold Progress.feed
    dsimp only
    split_ifs
    · rfl
    · rfl
    · exact hbegin (none :: ps)

theorem foldl_feed_append (bytes : List UInt8) (p : Progress) (before : List (Option Char)) :
    bytes.foldl Progress.feed ⟨p.pieces ++ before, p.unfinished⟩ =
      ⟨(bytes.foldl Progress.feed p).pieces ++ before,
        (bytes.foldl Progress.feed p).unfinished⟩ := by
  induction bytes generalizing p with
  | nil => rfl
  | cons b bytes ih => rw [List.foldl_cons, feed_append, ih, List.foldl_cons]

theorem feed_legal (h : ∀ u, p.unfinished = some u → u.Legal) :
    ∀ u, (p.feed b).unfinished = some u → u.Legal := by
  have hbegin (ps : List (Option Char)) :
      ∀ u, (Progress.begin ps b).unfinished = some u → u.Legal := by
    intro u hu
    unfold Progress.begin at hu
    split at hu
    · cases hu
    · rename_i v hv
      cases hu
      exact legal_of_start hv
    · cases hu
  -- An octet begins a character, goes on with one, or ends an ill-formed one and begins anew.
  rcases p with ⟨ps, _ | u⟩
  · exact hbegin ps
  · obtain ⟨hlow, hlast, hmore⟩ := h u rfl
    unfold Progress.feed
    dsimp only
    split_ifs with hb hm
    · intro v hv
      cases hv
    · intro v hv
      obtain rfl := Option.some.inj hv
      simp only [Bool.and_eq_true, decide_eq_true_eq] at hb
      constructor <;> dsimp only <;> omega
    · exact hbegin (none :: ps)

theorem foldl_feed_legal (bytes : List UInt8) (h : ∀ u, p.unfinished = some u → u.Legal) :
    ∀ u, (bytes.foldl Progress.feed p).unfinished = some u → u.Legal := by
  induction bytes generalizing p with
  | nil => exact h
  | cons b bytes ih => exact ih (feed_legal h)

/-- An ASCII octet ends what is unfinished. -/
theorem feed_of_lt (h : ∀ u, p.unfinished = some u → u.Legal) (hb : b.toNat < 0x80) :
    p.feed b = ⟨some (Char.ofNat b.toNat) :: p.finish.reverse, none⟩ := by
  rcases p with ⟨ps, _ | u⟩
  · simp [Progress.feed, Progress.begin, Progress.finish, start_of_lt hb]
  · have hlow := (h u rfl).low
    have hout : ¬(u.low ≤ b.toNat ∧ b.toNat ≤ u.high) := by omega
    simp [Progress.feed, Progress.begin, Progress.finish, start_of_lt hb, hout]

/-- Decoding splits at an ASCII octet. -/
theorem pieces_append_cons (a c : List UInt8) (hb : b.toNat < 0x80) :
    pieces (a ++ b :: c) = pieces a ++ some (Char.ofNat b.toNat) :: pieces c := by
  have hlegal := foldl_feed_legal a (p := ⟨[], none⟩) (fun u hu => by cases hu)
  simp only [pieces, List.foldl_append, List.foldl_cons]
  rw [feed_of_lt hlegal hb]
  have hmore := foldl_feed_append c ⟨[], none⟩
    (some (Char.ofNat b.toNat) :: (a.foldl Progress.feed ⟨[], none⟩).finish.reverse)
  rw [List.nil_append] at hmore
  rw [hmore]
  rcases hc : c.foldl Progress.feed ⟨[], none⟩ with ⟨ps, _ | u⟩
  · simp [Progress.finish]
  · simp [Progress.finish]

/-! ### ASCII characters -/

/-- A number that is no character stands for NUL. -/
theorem toNat_ofNat (n : Nat) : (Char.ofNat n).toNat = n ∨ (Char.ofNat n).toNat = 0 := by
  by_cases h : n.isValidChar
  · left
    rw [Char.ofNat, dif_pos h]
    rfl
  · right
    rw [Char.ofNat, dif_neg h]
    rfl

/-- ASCII characters other than NUL stand for octets among `seen`. -/
def Spelled (seen : List UInt8) (p : Progress) : Prop :=
  ∀ x, some x ∈ p.pieces → 0 < x.toNat → x.toNat < 0x80 → ∃ b ∈ seen, b.toNat = x.toNat

theorem spelled_feed {seen : List UInt8} (h : Spelled seen p)
    (hlegal : ∀ u, p.unfinished = some u → u.Legal) (b : UInt8) :
    Spelled (seen ++ [b]) (p.feed b) := by
  have hold (x : Char) (hx : some x ∈ p.pieces) (h0 : 0 < x.toNat) (h1 : x.toNat < 0x80) :
      ∃ c ∈ seen ++ [b], c.toNat = x.toNat := by
    obtain ⟨c, hc, heq⟩ := h x hx h0 h1
    exact ⟨c, List.mem_append_left _ hc, heq⟩
  have hbegin (ps : List (Option Char)) (hps : ∀ x, some x ∈ ps → some x ∈ p.pieces) :
      Spelled (seen ++ [b]) (Progress.begin ps b) := by
    intro x hx h0 h1
    unfold Progress.begin at hx
    split at hx
    · rename_i y hy
      rcases List.mem_cons.mp hx with hx | hx
      · obtain ⟨hb, rfl⟩ := eq_of_start_whole hy
        obtain rfl := Option.some.inj hx
        refine ⟨b, by simp, ?_⟩
        rcases toNat_ofNat b.toNat with heq | heq
        · exact heq.symm
        · omega
      · exact hold x (hps x hx) h0 h1
    · exact hold x (hps x hx) h0 h1
    · refine hold x (hps x ?_) h0 h1
      simpa using hx
  -- The cases of `feed_legal`; only where a character begins can an ASCII one be decoded.
  rcases p with ⟨ps, _ | u⟩
  · exact hbegin ps fun _ hx => hx
  · obtain ⟨hlow, hlast, -⟩ := hlegal u rfl
    unfold Progress.feed
    dsimp only
    split_ifs with hb hm
    · intro x hx h0 h1
      rcases List.mem_cons.mp hx with hx | hx
      · -- What ends here is no ASCII character.
        have hx := Option.some.inj hx
        rw [hx] at h0 h1
        simp only [Bool.and_eq_true, decide_eq_true_eq] at hb
        rcases toNat_ofNat (u.bits * 64 + (b.toNat - 0x80)) with heq | heq <;> omega
      · exact hold x hx h0 h1
    · exact hold
    · refine hbegin (none :: ps) fun x hx => ?_
      simpa using hx

theorem spelled_foldl (bytes : List UInt8) {seen : List UInt8} (h : Spelled seen p)
    (hlegal : ∀ u, p.unfinished = some u → u.Legal) :
    Spelled (seen ++ bytes) (bytes.foldl Progress.feed p) := by
  induction bytes generalizing p seen with
  | nil => simpa using h
  | cons b bytes ih =>
    have hnext := ih (spelled_feed h hlegal b) (feed_legal hlegal)
    rwa [List.append_assoc, List.singleton_append] at hnext

/-- An ASCII character other than NUL stands for an octet of its own. -/
theorem mem_of_some_mem_pieces {bytes : List UInt8} {x : Char} (h : some x ∈ pieces bytes)
    (h0 : 0 < x.toNat) (h1 : x.toNat < 0x80) : ∃ b ∈ bytes, b.toNat = x.toNat := by
  have hstart : Spelled [] ⟨[], none⟩ := fun x hx => by cases hx
  have hspelled : Spelled bytes (bytes.foldl Progress.feed ⟨[], none⟩) :=
    spelled_foldl bytes hstart fun u hu => by cases hu
  refine hspelled x ?_ h0 h1
  unfold pieces Progress.finish at h
  split at h
  · exact List.mem_reverse.mp h
  · simpa using h

/-! ### Texts -/

/-- The characters of `bytes`, if they are well formed. -/
def chars? (bytes : List UInt8) : Option (List Char) :=
  if (pieces bytes).all Option.isSome then some ((pieces bytes).filterMap id) else none

theorem decode?_eq (bytes : List UInt8) : decode? bytes = (chars? bytes).map String.ofList := by
  unfold decode? chars?
  dsimp only
  split_ifs <;> rfl

/-- A text may be cut at an ASCII octet before it is decoded. -/
theorem chars?_append_cons (a c : List UInt8) (hb : b.toNat < 0x80) :
    chars? (a ++ b :: c) =
      (chars? a).bind fun x => (chars? c).map fun y => x ++ Char.ofNat b.toNat :: y := by
  unfold chars?
  rw [pieces_append_cons a c hb]
  simp only [List.all_append, List.all_cons, Option.isSome_some, Bool.true_and,
    List.filterMap_append, List.filterMap_cons, id]
  by_cases ha : (pieces a).all Option.isSome <;> by_cases hc : (pieces c).all Option.isSome <;>
    simp [ha, hc]

theorem mem_of_chars? {bytes : List UInt8} {xs : List Char} {x : Char} (h : chars? bytes = some xs)
    (hx : x ∈ xs) (h0 : 0 < x.toNat) (h1 : x.toNat < 0x80) : ∃ b ∈ bytes, b.toNat = x.toNat := by
  unfold chars? at h
  split_ifs at h
  obtain rfl := Option.some.inj h
  refine mem_of_some_mem_pieces ?_ h0 h1
  simpa using hx

@[simp] theorem chars?_nil : chars? [] = some [] := rfl

end Switchboard.Text.Utf8

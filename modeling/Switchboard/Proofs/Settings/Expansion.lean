import Switchboard.Proofs.Text.Search
import Switchboard.Settings.Expansion

/-!
# What an environment reference stands for

A text with references falls into pieces from left to right, in one way only and whatever the
environment is. Every piece stands for itself, except that a name stands for its variable. What a
variable holds is therefore never looked at for further references.

- `Piece`: plain text, a reference, or one that is not closed; `Piece.value` is what it comes to.
- `Reading`: the pieces of a text; `exists_reading`, `Reading.unique`.
- `Reading.expandChars_eq`: a text expands to what its pieces come to.
- `expandChars_append`: two texts expand apart if no reference crosses from one to the other.
- `expansion_by_pieces`: all of it.

`Reading` has no environment in it, and this is where the absence of a second expansion comes from: the
pieces are fixed before any variable is looked up. A reference need not hold a legal name. Between the
opening and the next closing brace everything is the name, another opening included, and a reference
with an empty name is left as it stands.

Two texts in a row need not expand apart. A reference that is not closed takes the second text with it,
and the two characters of an opening may stand one in each; `Closed` and `Apart` exclude just these two.
-/

namespace Switchboard.Settings

/-- What a text consists of. -/
inductive Piece
  /-- Text without a reference. -/
  | plain (s : List Char)
  /-- A reference, with the name between its braces. -/
  | reference (name : List Char)
  /-- A reference that is not closed, with all that follows. -/
  | unclosed (rest : List Char)

namespace Piece

def spelling : Piece → List Char
  | plain s => s
  | reference name => opening ++ name ++ closing
  | unclosed rest => opening ++ rest

/-- A reference with a name comes to the value of the variable, to nothing if it is unset. All else
comes to itself. -/
def value (env : Environment) : Piece → List Char
  | reference (c :: name) => ((env (String.ofList (c :: name))).getD "").toList
  | p => p.spelling

/-- The variable that a piece names. -/
def name? : Piece → Option String
  | reference (c :: name) => some (String.ofList (c :: name))
  | _ => none

end Piece

/-- The pieces of a text from left to right: plain text up to the next opening, then a reference up to
the next closing brace, whatever stands between the two, and so on. -/
inductive Reading : List Char → List Piece → Prop
  | plain {s} (hs : ¬ opening <:+: s) : Reading s [.plain s]
  | unclosed {s rest} (hs : ¬ opening <:+: s) (hrest : ¬ closing <:+: rest) :
      Reading (s ++ opening ++ rest) [.plain s, .unclosed rest]
  | reference {s name rest ps} (hs : ¬ opening <:+: s) (hname : ¬ closing <:+: name)
      (h : Reading rest ps) :
      Reading (s ++ opening ++ (name ++ closing ++ rest)) (.plain s :: .reference name :: ps)

/-- Every reference is closed. -/
def Closed (ps : List Piece) : Prop := ∀ rest, .unclosed rest ∉ ps

variable {env env' : Environment} {s t before after name rest : List Char} {ps qs : List Piece}

/-! ### Where references open and close -/

theorem pair_prefix_cons_iff {α : Type} {x y c : α} {l : List α} :
    [x, y] <+: c :: l ↔ x = c ∧ l.head? = some y := by
  cases l <;> simp [eq_comm]

/-- Two elements stand side by side in a text that is put together from two exactly if they do so in one
of them or where the two meet. -/
theorem pair_infix_append_iff {α : Type} {x y : α} {a b : List α} : [x, y] <:+: a ++ b ↔
    [x, y] <:+: a ∨ [x, y] <:+: b ∨ a.getLast? = some x ∧ b.head? = some y := by
  induction a with
  | nil => simp
  | cons c a ih =>
    rw [List.cons_append, List.infix_cons_iff, ih, List.infix_cons_iff, pair_prefix_cons_iff,
      pair_prefix_cons_iff]
    cases a with
    | nil =>
      simp only [List.nil_append, List.head?_nil, List.infix_nil, List.getLast?_nil, List.getLast?_singleton]
      grind
    | cons d a =>
      simp only [List.cons_append, List.head?_cons, List.getLast?_cons_cons]
      tauto

/-- No reference opens where `t` follows `s`. -/
def Apart (s t : List Char) : Prop := ¬ (s.getLast? = some '$' ∧ t.head? = some '\x7b')

theorem not_opening_append (hs : ¬ opening <:+: s) (ht : ¬ opening <:+: t) (hst : Apart s t) :
    ¬ opening <:+: s ++ t := by
  intro hin
  rcases pair_infix_append_iff.mp hin with h | h | h
  · exact hs h
  · exact ht h
  · exact hst h

theorem cut?_opening (hs : ¬ opening <:+: s) (t : List Char) :
    Text.cut? opening (s ++ opening ++ t) = some (s, t) := by
  refine Text.cut?_append (List.cons_ne_nil _ _) ?_ t
  refine not_opening_append hs (Text.not_infix_dropLast (List.cons_ne_nil _ _)) ?_
  rintro ⟨-, h⟩
  cases h

theorem cut?_closing (hname : ¬ closing <:+: name) (t : List Char) :
    Text.cut? closing (name ++ closing ++ t) = some (name, t) := by
  refine Text.cut?_append (List.cons_ne_nil _ _) ?_ t
  simpa [closing] using hname

theorem not_infix_of_cut? {pat : List Char} (hpat : pat ≠ [])
    (h : Text.cut? pat s = some (before, after)) : ¬ pat <:+: before := by
  intro hin
  exact Text.not_infix_of_cut? hpat h (hin.trans (List.prefix_append _ _).isInfix)

/-! ### Pieces -/

/-- Every text falls into pieces. -/
theorem exists_reading (s : List Char) : ∃ ps, Reading s ps := by
  -- Over the length, since what follows a reference is shorter by the reference.
  induction hn : s.length using Nat.strong_induction_on generalizing s with
  | _ n ih =>
    rcases hopen : Text.cut? opening s with _ | ⟨before, after⟩
    · exact ⟨_, .plain (Text.cut?_eq_none_iff.mp hopen)⟩
    · have hbefore := not_infix_of_cut? (List.cons_ne_nil _ _) hopen
      obtain rfl := Text.cut?_eq_some hopen
      rcases hclose : Text.cut? closing after with _ | ⟨name, rest⟩
      · exact ⟨_, .unclosed hbefore (Text.cut?_eq_none_iff.mp hclose)⟩
      · have hname := not_infix_of_cut? (List.cons_ne_nil _ _) hclose
        obtain rfl := Text.cut?_eq_some hclose
        have hlt : rest.length < n := by
          simp only [List.length_append, opening, List.length_cons] at hn
          omega
        obtain ⟨ps, hps⟩ := ih _ hlt rest rfl
        exact ⟨_, .reference hbefore hname hps⟩

/-- The pieces of a text by its cuts. -/
theorem Reading.next (h : Reading s ps) :
    Text.cut? opening s = none ∧ ps = [.plain s] ∨
      ∃ before after, Text.cut? opening s = some (before, after) ∧
        (Text.cut? closing after = none ∧ ps = [.plain before, .unclosed after] ∨
          ∃ name rest qs, Text.cut? closing after = some (name, rest) ∧ Reading rest qs ∧
            ps = .plain before :: .reference name :: qs) := by
  cases h with
  | plain hs => exact .inl ⟨Text.cut?_eq_none_iff.mpr hs, rfl⟩
  | unclosed hs hrest =>
    exact .inr ⟨_, _, cut?_opening hs _, .inl ⟨Text.cut?_eq_none_iff.mpr hrest, rfl⟩⟩
  | reference hs hname h =>
    exact .inr ⟨_, _, cut?_opening hs _, .inr ⟨_, _, _, cut?_closing hname _, h, rfl⟩⟩

/-- A text falls into pieces in one way. -/
theorem Reading.unique (h : Reading s ps) (h' : Reading s qs) : ps = qs := by
  -- Both readings cut the text at the same places, which `Reading.next` finds again in the second.
  induction h generalizing qs with
  | plain hs =>
    rcases h'.next with ⟨-, rfl⟩ | ⟨before, after, hopen, -⟩
    · rfl
    · rw [Text.cut?_eq_none_iff.mpr hs] at hopen
      cases hopen
  | @unclosed s rest hs hrest =>
    rcases h'.next with ⟨hnone, -⟩ | ⟨before, after, hopen, hnext⟩
    · rw [cut?_opening hs] at hnone
      cases hnone
    · obtain ⟨rfl, rfl⟩ := Prod.mk.inj (Option.some.inj ((cut?_opening hs rest).symm.trans hopen))
      rcases hnext with ⟨-, rfl⟩ | ⟨name, rest', qs, hclose, -⟩
      · rfl
      · rw [Text.cut?_eq_none_iff.mpr hrest] at hclose
        cases hclose
  | @reference s name rest ps hs hname h ih =>
    rcases h'.next with ⟨hnone, -⟩ | ⟨before, after, hopen, hnext⟩
    · rw [cut?_opening hs] at hnone
      cases hnone
    · obtain ⟨rfl, rfl⟩ := Prod.mk.inj (Option.some.inj ((cut?_opening hs _).symm.trans hopen))
      rcases hnext with ⟨hnone, -⟩ | ⟨name', rest', qs, hclose, hqs, rfl⟩
      · rw [cut?_closing hname] at hnone
        cases hnone
      · obtain ⟨rfl, rfl⟩ :=
          Prod.mk.inj (Option.some.inj ((cut?_closing hname rest).symm.trans hclose))
        rw [ih hqs]

/-- The pieces make up the text. -/
theorem Reading.spelled (h : Reading s ps) : ps.flatMap Piece.spelling = s := by
  induction h with
  | plain hs => simp [Piece.spelling]
  | unclosed hs hrest => simp [Piece.spelling]
  | reference hs hname h ih => simp [Piece.spelling, ih]

/-! ### Expansion -/

theorem expandChars_plain (hs : ¬ opening <:+: s) : expandChars env s = s := by
  rw [expandChars]
  split
  · rfl
  · rename_i hopen
    rw [Text.cut?_eq_none_iff.mpr hs] at hopen
    cases hopen

theorem expandChars_unclosed (hs : ¬ opening <:+: s) (hrest : ¬ closing <:+: rest) :
    expandChars env (s ++ opening ++ rest) = s ++ opening ++ rest := by
  rw [expandChars]
  split
  · rfl
  · rename_i hopen
    obtain ⟨rfl, rfl⟩ := Prod.mk.inj (Option.some.inj ((cut?_opening hs rest).symm.trans hopen))
    split
    · rfl
    all_goals
      rename_i hclose
      rw [Text.cut?_eq_none_iff.mpr hrest] at hclose
      cases hclose

theorem expandChars_reference (hs : ¬ opening <:+: s) (hname : ¬ closing <:+: name) :
    expandChars env (s ++ opening ++ (name ++ closing ++ rest)) =
      s ++ (Piece.reference name).value env ++ expandChars env rest := by
  rw [expandChars]
  split
  · rename_i hopen
    rw [cut?_opening hs] at hopen
    cases hopen
  · rename_i hopen
    obtain ⟨rfl, rfl⟩ := Prod.mk.inj (Option.some.inj ((cut?_opening hs _).symm.trans hopen))
    split
    · rename_i hclose
      rw [cut?_closing hname] at hclose
      cases hclose
    all_goals
      rename_i hclose
      obtain ⟨rfl, rfl⟩ :=
        Prod.mk.inj (Option.some.inj ((cut?_closing hname rest).symm.trans hclose))
      simp [Piece.value, Piece.spelling]

/-- **A text expands to what its pieces come to.** -/
theorem Reading.expandChars_eq (h : Reading s ps) :
    expandChars env s = ps.flatMap (Piece.value env) := by
  induction h with
  | plain hs =>
    rw [expandChars_plain hs]
    simp [Piece.value, Piece.spelling]
  | unclosed hs hrest =>
    rw [expandChars_unclosed hs hrest]
    simp [Piece.value, Piece.spelling]
  | reference hs hname h ih =>
    rw [expandChars_reference hs hname, ih]
    simp [Piece.value, Piece.spelling]

/-- A piece comes to the same if the variable that it names does. -/
theorem Piece.value_congr {p : Piece} (h : ∀ name, p.name? = some name → env name = env' name) :
    p.value env = p.value env' := by
  match p with
  | .plain s => rfl
  | .unclosed rest => rfl
  | .reference [] => rfl
  | .reference (c :: name) => rw [value, value, h _ rfl]

theorem Piece.value_reference {name : String} (h : name ≠ "") :
    (Piece.reference name.toList).value env = ((env name).getD "").toList := by
  obtain ⟨c, cs, hcs⟩ := List.exists_cons_of_ne_nil (mt String.toList_eq_nil_iff.mp h)
  rw [hcs, value, ← hcs, String.ofList_toList]

/-! ### Two texts -/

/-- Plain text stands before whatever follows it. -/
theorem expandChars_plain_append (hs : ¬ opening <:+: s) (hst : Apart s t) :
    expandChars env (s ++ t) = s ++ expandChars env t := by
  obtain ⟨ps, h⟩ := exists_reading t
  cases h with
  | plain ht => rw [expandChars_plain (not_opening_append hs ht hst), expandChars_plain ht]
  | @unclosed u rest hu hrest =>
    have hsu : Apart s u := fun ⟨hlast, hhead⟩ => hst ⟨hlast, by simp [hhead]⟩
    have hopen := not_opening_append hs hu hsu
    have hassoc : s ++ (u ++ opening ++ rest) = s ++ u ++ opening ++ rest := by simp
    rw [hassoc, expandChars_unclosed hopen hrest, expandChars_unclosed hu hrest, hassoc]
  | @reference u name rest ps hu hname h =>
    have hsu : Apart s u := fun ⟨hlast, hhead⟩ => hst ⟨hlast, by simp [hhead]⟩
    have hopen := not_opening_append hs hu hsu
    have hassoc : s ++ (u ++ opening ++ (name ++ closing ++ rest)) =
        s ++ u ++ opening ++ (name ++ closing ++ rest) := by simp
    rw [hassoc, expandChars_reference hopen hname, expandChars_reference hu hname]
    simp only [List.append_assoc]

/-- Two texts expand apart if every reference of the first is closed and none opens where they meet. -/
theorem expandChars_append (h : Reading s ps) (hclosed : Closed ps) (hst : Apart s t) :
    expandChars env (s ++ t) = expandChars env s ++ expandChars env t := by
  induction h with
  | plain hs => rw [expandChars_plain_append hs hst, expandChars_plain hs]
  | @unclosed s rest hs hrest => exact absurd (by simp) (hclosed rest)
  | @reference s name rest ps hs hname h ih =>
    have hrest : Closed ps := fun u hu => hclosed u (by simp [hu])
    have hapart : Apart rest t := fun ⟨hlast, hhead⟩ => hst ⟨by simp [hlast], hhead⟩
    have hassoc : s ++ opening ++ (name ++ closing ++ rest) ++ t =
        s ++ opening ++ (name ++ closing ++ (rest ++ t)) := by simp
    rw [hassoc, expandChars_reference hs hname, expandChars_reference hs hname, ih hrest hapart]
    simp only [List.append_assoc]

/-- **Expansion goes by the pieces of a text.** There is one way in which a text falls into pieces, and
it expands to what they come to, in their order: plain text, references without a name and one that is
not closed to themselves, the others to what their variables hold. So only the variables that are named
matter, two texts expand apart if every reference of the first is closed and none opens where they meet,
and what a variable holds stands as it is between what is before its reference and what is behind it. -/
theorem expansion_by_pieces (s : String) :
    ∃ ps, Reading s.toList ps ∧ (∀ qs, Reading s.toList qs → qs = ps) ∧
      ps.flatMap Piece.spelling = s.toList ∧
      (∀ env, (expand env s).toList = ps.flatMap (Piece.value env)) ∧
      (∀ env env', (∀ p ∈ ps, ∀ name, p.name? = some name → env name = env' name) →
        expand env s = expand env' s) ∧
      (Closed ps → ∀ env t, Apart s.toList t.toList →
        expand env (s ++ t) = expand env s ++ expand env t) ∧
      (Closed ps → ∀ env name value t, name ≠ "" → '\x7d' ∉ name.toList →
        env name = some value →
        expand env (s ++ ("$\x7b" ++ name ++ "\x7d") ++ t) =
          expand env s ++ value ++ expand env t) := by
  obtain ⟨ps, h⟩ := exists_reading s.toList
  -- What is appended may not complete a reference that was left open, nor begin with what would
  -- join the end of the text.
  have happend : Closed ps → ∀ env t, Apart s.toList t.toList →
      expand env (s ++ t) = expand env s ++ expand env t := by
    intro hclosed env t hst
    unfold expand
    rw [String.toList_append, expandChars_append h hclosed hst, String.ofList_append]
  refine ⟨ps, h, fun qs hqs => hqs.unique h, h.spelled, ?_, ?_, happend, ?_⟩
  · intro env
    rw [expand, String.toList_ofList, h.expandChars_eq]
  · intro env env' hagree
    have hvalues : ps.flatMap (Piece.value env) = ps.flatMap (Piece.value env') := by
      simp only [List.flatMap]
      exact congrArg List.flatten
        (List.map_congr_left fun p hp => Piece.value_congr (hagree p hp))
    rw [expand, expand, h.expandChars_eq, h.expandChars_eq, hvalues]
  · intro hclosed env name value t hname hbrace hvalue
    have hspelling : ("$\x7b" ++ name ++ "\x7d" ++ t).toList =
        [] ++ opening ++ (name.toList ++ closing ++ t.toList) := by
      simp [opening, closing]
    have hapart : Apart s.toList ("$\x7b" ++ name ++ "\x7d" ++ t).toList := by
      rw [hspelling]
      rintro ⟨-, hhead⟩
      cases hhead
    have hreference : expand env ("$\x7b" ++ name ++ "\x7d" ++ t) = value ++ expand env t := by
      have hclosing : ¬ closing <:+: name.toList := by
        rwa [closing, List.singleton_infix_iff]
      have hpiece : (Piece.reference name.toList).value env = value.toList := by
        rw [Piece.value_reference hname, hvalue, Option.getD_some]
      unfold expand
      rw [hspelling, expandChars_reference (by simp [opening]) hclosing, hpiece, List.nil_append,
        String.ofList_append, String.ofList_toList]
    rw [String.append_assoc, happend hclosed env _ hapart, hreference, String.append_assoc]

/-- With the dollar sign before it the value looks like a reference, and one that is not closed follows.
Neither is read again. -/
theorem expansion_by_pieces_verbatim :
    let env : Environment := fun name => if name = "A" then some "\x7bB\x7d" else some "again"
    Reading ['$'] [.plain ['$']] ∧ Closed [.plain ['$']] ∧
      expand env "$$\x7bA\x7d$\x7bB" = "$\x7bB\x7d$\x7bB" := by
  intro env
  have hreading : Reading "$".toList [.plain ['$']] := .plain (by decide)
  have hclosed : Closed [.plain ['$']] := by
    intro rest hrest
    cases hrest with
    | tail _ h => cases h
  have hopen : Reading "$\x7bB".toList [.plain [], .unclosed ['B']] :=
    .unclosed (s := []) (by decide) (by decide)
  obtain ⟨ps, -, hunique, -, hexpand, -, -, hvalue⟩ := expansion_by_pieces "$"
  obtain ⟨qs, -, hunique', -, hexpand', -⟩ := expansion_by_pieces "$\x7bB"
  obtain rfl := hunique _ hreading
  obtain rfl := hunique' _ hopen
  have hleft : expand env "$" = "$" := String.toList_inj.mp (hexpand env)
  have hright : expand env "$\x7bB" = "$\x7bB" := String.toList_inj.mp (hexpand' env)
  have hall := hvalue hclosed env "A" "\x7bB\x7d" "$\x7bB" (by decide) (by decide) rfl
  rw [hleft, hright] at hall
  exact ⟨hreading, hclosed, hall⟩

end Switchboard.Settings

import Switchboard.Json.Reader
import Switchboard.Proofs.Json.Scanning

/-!
# The reader reads the grammar

The automaton keeps no text, but the place that it has reached says what the text so far must be: a part
of each container around the place, and all of what was closed. So a document that is read was written
by the grammar. The other way round, what the grammar has written takes the automaton from the place
where it may start to the place after it, as long as it does not nest too deep.

- `Leads`: the text before a value inside containers.
- `Reached`: the text before a place.
- `Reached.step`: one token takes the reader on from what is written to what is written.
- `Phrase.Runs`, `runs_of_written`: what is written is read.
- `Fits`: nothing that is read nests deeper than allowed.
- `readDocument_eq_ok_iff`: the documents that are read are those of the grammar within the limit.

The automaton has an explicit stack, while the grammar nests: the two directions treat this in different
ways. From the text to the grammar, `Leads` is an invariant that goes along the stack, one layer for
each container, and a step of the automaton changes one layer at most. From the grammar to the text,
`runs_of_written` is an induction over the derivation, with the stack as a parameter: a phrase is read
inside any containers, and they are the same again behind it. For this its statement has to differ from
phrase to phrase. A value may start at several places, of which `Starts` says what they have in common;
the items of an array are read from the bracket and not from the place of an item, because the automaton
allows `]` only in the first of these.

The limit enters both times through the stack. Its length and the depth of what is still to come are
together within the limit in `Phrase.Runs`; what is already closed is bounded by `Fits`, so that the
depth of a document that was read is known without looking at its text again.
-/

namespace Switchboard.Json

/-! ### What is read is written -/

/-- What stands in an object before a key, after some of its members in reverse. -/
inductive BeforeKey : List (String × Json) → List Char → Prop
  | first {w} (hw : Spaces w) : BeforeKey [] w
  | next {ms s w} (h : Written (.members ms.reverse) s) (hw : Spaces w) :
      BeforeKey ms (s ++ ',' :: w)

/-- What stands in an array before an item, after some of its items in reverse. -/
inductive BeforeItem : List Json → List Char → Prop
  | first {w} (hw : Spaces w) : BeforeItem [] w
  | next {js s w} (h : Written (.items js.reverse) s) (hw : Spaces w) :
      BeforeItem js (s ++ ',' :: w)

/-- The text of a document up to a value inside containers, from the inside out. -/
inductive Leads : List Container → List Char → Prop
  | document {w} (hw : Spaces w) : Leads [] w
  | item {around pre js s} (h : Leads around pre) (hs : BeforeItem js s) :
      Leads (.array js :: around) (pre ++ '[' :: s)
  | member {around pre ms s k key w w'} (h : Leads around pre) (hs : BeforeKey ms s)
      (hk : Spelled k key.toList) (hw : Spaces w) (hw' : Spaces w') :
      Leads (.object ms key :: around)
        (pre ++ '\x7b' :: (s ++ '"' :: (k ++ '"' :: (w ++ ':' :: w'))))

/-- The text of a document up to a place. -/
inductive Reached : Reading → List Char → Prop
  | value {around pre} (h : Leads around pre) : Reached (.value around) pre
  | firstItem {around pre w} (h : Leads around pre) (hw : Spaces w) :
      Reached (.firstItem around) (pre ++ '[' :: w)
  | firstKey {around pre w} (h : Leads around pre) (hw : Spaces w) :
      Reached (.firstKey around) (pre ++ '\x7b' :: w)
  | nextKey {around pre ms s} (h : Leads around pre) (hs : BeforeKey ms s) :
      Reached (.nextKey ms around) (pre ++ '\x7b' :: s)
  | colon {around pre ms s k key w} (h : Leads around pre) (hs : BeforeKey ms s)
      (hk : Spelled k key.toList) (hw : Spaces w) :
      Reached (.colon key ms around) (pre ++ '\x7b' :: (s ++ '"' :: (k ++ '"' :: w)))
  | afterItem {around pre js s} (h : Leads around pre) (hs : Written (.items js.reverse) s) :
      Reached (.afterItem js around) (pre ++ '[' :: s)
  | afterMember {around pre ms s} (h : Leads around pre) (hs : Written (.members ms.reverse) s) :
      Reached (.afterMember ms around) (pre ++ '\x7b' :: s)
  | done {j s} (hs : Written (.item j) s) : Reached (.done j) s

variable {around : List Container} {pre l s : List Char} {r r' : Reading} {t : Token} {j : Json}

theorem BeforeItem.space {js : List Json} {c : Char} (h : BeforeItem js s)
    (hc : isSpace c = true) : BeforeItem js (s ++ [c]) := by
  cases h with
  | first hw => exact .first (hw.concat hc)
  | next h hw =>
    rw [List.append_assoc]
    exact .next h (hw.concat hc)

theorem BeforeKey.space {ms : List (String × Json)} {c : Char} (h : BeforeKey ms s)
    (hc : isSpace c = true) : BeforeKey ms (s ++ [c]) := by
  cases h with
  | first hw => exact .first (hw.concat hc)
  | next h hw =>
    rw [List.append_assoc]
    exact .next h (hw.concat hc)

theorem Leads.space {c : Char} (h : Leads around pre) (hc : isSpace c = true) :
    Leads around (pre ++ [c]) := by
  cases h with
  | document hw => exact .document (hw.concat hc)
  | item h hs =>
    rw [List.append_assoc]
    exact .item h (hs.space hc)
  | member h hs hk hw hw' => simpa using Leads.member h hs hk hw (hw'.concat hc)

/-- White space changes no place. -/
theorem Reached.space {c : Char} (h : Reached r pre) (hc : isSpace c = true) :
    Reached r (pre ++ [c]) := by
  cases h with
  | value h => exact .value (h.space hc)
  | firstItem h hw =>
    rw [List.append_assoc]
    exact .firstItem h (hw.concat hc)
  | firstKey h hw =>
    rw [List.append_assoc]
    exact .firstKey h (hw.concat hc)
  | nextKey h hs =>
    rw [List.append_assoc]
    exact .nextKey h (hs.space hc)
  | colon h hs hk hw => simpa using Reached.colon h hs hk (hw.concat hc)
  | afterItem h hs =>
    rw [List.append_assoc]
    exact .afterItem h (hs.items_space hc)
  | afterMember h hs =>
    rw [List.append_assoc]
    exact .afterMember h (hs.members_space hc)
  | done hs => exact .done (hs.item_space hc)

/-- Where an item may start, it extends the items before it. -/
theorem BeforeItem.written {js : List Json} (h : BeforeItem js s) (hl : Written (.value j) l) :
    Written (.items (j :: js).reverse) (s ++ l) := by
  cases h with
  | first hw => simpa using Written.firstItem (.item hw hl .nil)
  | next h hw => simpa using Written.nextItem h (.item hw hl .nil)

/-- Where a key may start, a member extends the members before it. -/
theorem BeforeKey.written {ms : List (String × Json)} {k w w' : List Char} {key : String}
    (h : BeforeKey ms s) (hk : Spelled k key.toList) (hw : Spaces w) (hw' : Spaces w')
    (hl : Written (.value j) l) :
    Written (.members ((key, j) :: ms).reverse)
      (s ++ '"' :: (k ++ '"' :: (w ++ ':' :: (w' ++ l)))) := by
  cases h with
  | first hs => simpa using Written.firstMember (.member hs hk hw (.item hw' hl .nil))
  | next h hs => simpa using Written.nextMember h (.member hs hk hw (.item hw' hl .nil))

/-- A value that has ended. -/
theorem Leads.complete (h : Leads around pre) (hl : Written (.value j) l) :
    Reached (Reading.complete j around) (pre ++ l) := by
  cases h with
  | document hw => simpa [Reading.complete] using Reached.done (.item hw hl .nil)
  | item h hs =>
    rw [List.append_assoc]
    exact .afterItem h (hs.written hl)
  | member h hs hk hw hw' =>
    simpa [Reading.complete] using Reached.afterMember h (hs.written hk hw hw' hl)

/-- A token where a value must start. -/
theorem Leads.stepValue (h : Leads around pre) (hl : Lexeme t l)
    (hstep : Reading.stepValue around t = .ok r) : Reached r (pre ++ l) := by
  cases hl with
  | openObject =>
    simp only [Reading.stepValue] at hstep
    split at hstep
    · obtain rfl := Except.ok.inj hstep
      exact .firstKey h .nil
    · cases hstep
  | openArray =>
    simp only [Reading.stepValue] at hstep
    split at hstep
    · obtain rfl := Except.ok.inj hstep
      exact .firstItem h .nil
    · cases hstep
  | scalar hl _ =>
    obtain rfl := Except.ok.inj hstep
    exact h.complete hl
  | text hl =>
    obtain rfl := Except.ok.inj hstep
    exact h.complete (.string hl)
  | _ => cases hstep

/-- A token where a key must start. -/
theorem Leads.stepKey {ms : List (String × Json)} (h : Leads around pre) (hs : BeforeKey ms s)
    (hl : Lexeme t l) (hstep : Reading.stepKey ms around t = .ok r) :
    Reached r (pre ++ '\x7b' :: s ++ l) := by
  cases hl with
  | text hl =>
    obtain rfl := Except.ok.inj hstep
    simpa using Reached.colon h hs hl .nil
  | _ => cases hstep

/-- **One token takes the reader from a place to a place.** -/
theorem Reached.step (h : Reached r pre) (hl : Lexeme t l) (hstep : r.step t = .ok r') :
    Reached r' (pre ++ l) := by
  cases h with
  | value h => exact h.stepValue hl hstep
  | @firstItem _ _ w h hw =>
    -- The array ends without an item, or its first item starts where the array has no other.
    cases hl with
    | closeArray =>
      obtain rfl := Except.ok.inj hstep
      simpa using h.complete (.emptyArray hw)
    | openObject => exact (h.item (.first hw)).stepValue .openObject hstep
    | openArray => exact (h.item (.first hw)).stepValue .openArray hstep
    | scalar hl hj => exact (h.item (.first hw)).stepValue (.scalar hl hj) hstep
    | text hl => exact (h.item (.first hw)).stepValue (.text hl) hstep
    | _ => cases hstep
  | firstKey h hw =>
    cases hl with
    | closeObject =>
      obtain rfl := Except.ok.inj hstep
      simpa using h.complete (.emptyObject hw)
    | text hl => exact h.stepKey (.first hw) (.text hl) hstep
    | _ => cases hstep
  | nextKey h hs => exact h.stepKey hs hl hstep
  | colon h hs hk hw =>
    cases hl with
    | colon =>
      obtain rfl := Except.ok.inj hstep
      simpa using Reached.value (.member h hs hk hw .nil)
    | _ => cases hstep
  | afterItem h hs =>
    cases hl with
    | comma =>
      obtain rfl := Except.ok.inj hstep
      simpa using Reached.value (.item h (.next hs .nil))
    | closeArray =>
      obtain rfl := Except.ok.inj hstep
      simpa using h.complete (.array hs)
    | _ => cases hstep
  | afterMember h hs =>
    cases hl with
    | comma =>
      obtain rfl := Except.ok.inj hstep
      simpa using Reached.nextKey h (.next hs .nil)
    | closeObject =>
      obtain rfl := Except.ok.inj hstep
      simpa using h.complete (.object hs)
    | _ => cases hstep
  | done hs => cases hstep

/-- An ill-formed piece stops the reader wherever it is. -/
theorem Reading.step_ill (ht : Ill t) (r r' : Reading) : r.step t ≠ .ok r' := by
  cases ht <;> cases r <;> exact nofun

/-! ### What is written is read -/

/-- A value may start here, with these containers around it. -/
def Starts (r : Reading) (around : List Container) : Prop :=
  ∀ t, t ≠ .closeArray → r.step t = Reading.stepValue around t

theorem depthItems_concat (js : List Json) (j : Json) :
    depthItems (js ++ [j]) = max (depthItems js) j.depth := by
  induction js with
  | nil => simp [depthItems]
  | cons i js ih => simp only [List.cons_append, depthItems, ih, Nat.max_assoc]

theorem depthMembers_concat (ms : List (String × Json)) (key : String) (j : Json) :
    depthMembers (ms ++ [(key, j)]) = max (depthMembers ms) j.depth := by
  induction ms with
  | nil => simp [depthMembers]
  | cons m ms ih =>
    obtain ⟨k, i⟩ := m
    simp only [List.cons_append, depthMembers, ih, Nat.max_assoc]

/-- From where to where a piece of text takes the reader: a value over the place where it may start, the
parts of a container from the bracket that opens it. -/
def Phrase.Runs (s : List Char) : Phrase → Prop
  | .value j | .item j => ∀ around r, Starts r around → around.length + j.depth ≤ maxDepth →
      Passes Reading.step r s (Reading.complete j around)
  | .items js => ∀ around, around.length + 1 + depthItems js ≤ maxDepth →
      Passes Reading.step (.firstItem around) s (.afterItem js.reverse around)
  | .member key j => ∀ around ms r, (∀ x, r.step (.text x) = .ok (.colon x ms around)) →
      around.length + 1 + j.depth ≤ maxDepth →
      Passes Reading.step r s (.afterMember ((key, j) :: ms) around)
  | .members ms => ∀ around, around.length + 1 + depthMembers ms ≤ maxDepth →
      Passes Reading.step (.firstKey around) s (.afterMember ms.reverse around)

theorem Starts.openArray (hr : Starts r around) (h : around.length + 1 ≤ maxDepth) :
    Reads Reading.step r ['['] (.firstItem around) := by
  refine .punctuation rfl rfl ((hr .openArray nofun).trans ?_)
  exact if_pos h

theorem Starts.openObject (hr : Starts r around) (h : around.length + 1 ≤ maxDepth) :
    Reads Reading.step r ['\x7b'] (.firstKey around) := by
  refine .punctuation rfl rfl ((hr .openObject nofun).trans ?_)
  exact if_pos h

theorem Starts.firstItem (around : List Container) :
    Starts (.firstItem around) (.array [] :: around) := by
  intro t ht
  cases t with
  | closeArray => exact absurd rfl ht
  | _ => rfl

/-- **What the grammar has written takes the reader from where it starts to where it ends.** -/
theorem runs_of_written {p : Phrase} (h : Written p s) : p.Runs s := by
  induction h with
  | null => exact fun around r hr _ => (Reads.null (hr (.scalar .null) nofun)).passes
  | yes => exact fun around r hr _ => (Reads.yes (hr (.scalar (.bool true)) nofun)).passes
  | no => exact fun around r hr _ => (Reads.no (hr (.scalar (.bool false)) nofun)).passes
  | number h => exact fun around r hr _ => .numeral h (hr (.scalar _) nofun)
  | string h => exact fun around r hr _ => (Reads.string h (hr (.text _) nofun)).passes
  | emptyArray hw =>
    intro around r hr hdepth
    have hclose : Reads Reading.step (.firstItem around) [']']
        (Reading.complete (.arr []) around) := .punctuation rfl rfl rfl
    exact ((hr.openArray hdepth).trans ((Reads.spaces hw _).trans hclose)).passes
  | @array s js h ih =>
    -- Between the brackets the stack is one higher, and so much less depth is left.
    intro around r hr hdepth
    have hdepth : around.length + 1 + depthItems js ≤ maxDepth := by
      rw [depth] at hdepth
      omega
    have hclose := (ih around hdepth).punctuation (c := ']') (by decide) rfl rfl
    rw [List.reverse_reverse] at hclose
    exact ((hr.openArray (by omega)).trans hclose).passes
  | emptyObject hw =>
    intro around r hr hdepth
    have hclose : Reads Reading.step (.firstKey around) ['\x7d']
        (Reading.complete (.obj []) around) := .punctuation rfl rfl rfl
    exact ((hr.openObject hdepth).trans ((Reads.spaces hw _).trans hclose)).passes
  | @object s ms h ih =>
    intro around r hr hdepth
    have hdepth : around.length + 1 + depthMembers ms ≤ maxDepth := by
      rw [depth] at hdepth
      omega
    have hclose := (ih around hdepth).punctuation (c := '\x7d') (by decide) rfl rfl
    rw [List.reverse_reverse] at hclose
    exact ((hr.openObject (by omega)).trans hclose).passes
  | item hw h hw' ih =>
    intro around r hr hdepth
    exact (Reads.spaces hw r).trans_passes ((ih around r hr hdepth).spaces hw')
  | firstItem h ih =>
    intro around hdepth
    exact ih _ _ (Starts.firstItem around) (by simpa [depthItems, Nat.add_assoc] using hdepth)
  | @nextItem t s js j ht h iht ih =>
    intro around hdepth
    rw [depthItems_concat] at hdepth
    have hcomma := (iht around (by omega)).punctuation (c := ',') (by decide) rfl rfl
    -- The items before the comma are in the stack while the next one is read.
    have hitem := ih (.array js.reverse :: around) (.value _) (fun _ _ => rfl)
      (by rw [List.length_cons]; omega)
    have hall := hcomma.trans_passes hitem
    rw [List.append_assoc, List.singleton_append] at hall
    rw [List.reverse_concat]
    exact hall
  | @member w k key w' s j hw hk hw' h ih =>
    -- The key comes from where `r` stands, which is behind the bracket or behind a comma.
    intro around ms r hr hdepth
    have hcolon : Reads Reading.step (.colon key ms around) [':']
        (.value (.object ms key :: around)) := .punctuation rfl rfl rfl
    have hkey := (Reads.spaces hw r).trans (Reads.string hk (hr key))
    have hitem := ih (.object ms key :: around) (.value _) (fun _ _ => rfl)
      (by rw [List.length_cons]; omega)
    have hall := (hkey.trans ((Reads.spaces hw' _).trans hcolon)).trans_passes hitem
    simpa [Reading.complete] using hall
  | firstMember h ih =>
    intro around hdepth
    exact ih around [] _ (fun _ => rfl) (by simpa [depthMembers] using hdepth)
  | @nextMember t s ms key j ht h iht ih =>
    intro around hdepth
    rw [depthMembers_concat] at hdepth
    have hcomma := (iht around (by omega)).punctuation (c := ',') (by decide) rfl rfl
    have hmember := ih around ms.reverse (.nextKey _ around) (fun _ => rfl) (by omega)
    have hall := hcomma.trans_passes hmember
    rw [List.append_assoc, List.singleton_append] at hall
    rw [List.reverse_concat]
    exact hall

/-! ### Depth -/

/-- What was closed inside the containers nests no deeper than these leave room for. -/
def Fits : List Container → Prop
  | [] => True
  | .array js :: around => around.length + 1 + depthItems js ≤ maxDepth ∧ Fits around
  | .object ms _ :: around => around.length + 1 + depthMembers ms ≤ maxDepth ∧ Fits around

def Reading.Fits : Reading → Prop
  | value around => Json.Fits around
  | firstItem around | firstKey around => around.length + 1 ≤ maxDepth ∧ Json.Fits around
  | nextKey ms around | colon _ ms around | afterMember ms around =>
    around.length + 1 + depthMembers ms ≤ maxDepth ∧ Json.Fits around
  | afterItem js around => around.length + 1 + depthItems js ≤ maxDepth ∧ Json.Fits around
  | done j => j.depth ≤ maxDepth

theorem depthItems_reverse (js : List Json) : depthItems js.reverse = depthItems js := by
  induction js with
  | nil => rfl
  | cons j js ih => rw [List.reverse_cons, depthItems_concat, ih, depthItems, Nat.max_comm]

theorem depthMembers_reverse (ms : List (String × Json)) :
    depthMembers ms.reverse = depthMembers ms := by
  induction ms with
  | nil => rfl
  | cons m ms ih => rw [List.reverse_cons, depthMembers_concat, ih, depthMembers, Nat.max_comm]

theorem Fits.length_le (h : Fits around) : around.length ≤ maxDepth := by
  rcases around with _ | ⟨_ | _, around⟩
  · exact Nat.zero_le _
  · exact Nat.le_trans (Nat.le_add_right _ _) h.1
  · exact Nat.le_trans (Nat.le_add_right _ _) h.1

theorem Fits.complete (h : Fits around) (hj : around.length + j.depth ≤ maxDepth) :
    (Reading.complete j around).Fits := by
  rcases around with _ | ⟨_ | _, around⟩
  · simpa [Reading.complete, Reading.Fits] using hj
  · refine ⟨?_, h.2⟩
    have hrest := h.1
    simp only [depthItems, List.length_cons] at hj ⊢
    omega
  · refine ⟨?_, h.2⟩
    have hrest := h.1
    simp only [depthMembers, List.length_cons] at hj ⊢
    omega

theorem Fits.stepValue (h : Fits around) (hl : Lexeme t l)
    (hstep : Reading.stepValue around t = .ok r) : r.Fits := by
  cases hl with
  | openObject =>
    simp only [Reading.stepValue] at hstep
    split at hstep
    · rename_i hlt
      obtain rfl := Except.ok.inj hstep
      exact ⟨hlt, h⟩
    · cases hstep
  | openArray =>
    simp only [Reading.stepValue] at hstep
    split at hstep
    · rename_i hlt
      obtain rfl := Except.ok.inj hstep
      exact ⟨hlt, h⟩
    · cases hstep
  | scalar hl hj =>
    obtain rfl := Except.ok.inj hstep
    exact h.complete (hj ▸ h.length_le)
  | text hl =>
    obtain rfl := Except.ok.inj hstep
    exact h.complete h.length_le
  | _ => cases hstep

theorem Fits.stepKey {ms : List (String × Json)} (h : Fits around)
    (hms : around.length + 1 + depthMembers ms ≤ maxDepth)
    (hstep : Reading.stepKey ms around t = .ok r) : r.Fits := by
  cases t with
  | text key =>
    obtain rfl := Except.ok.inj hstep
    exact ⟨hms, h⟩
  | _ => cases hstep

theorem Reading.Fits.step (h : r.Fits) (hl : Lexeme t l) (hstep : r.step t = .ok r') : r'.Fits := by
  cases r with
  | value around => exact Json.Fits.stepValue h hl hstep
  | firstItem around =>
    by_cases ht : t = .closeArray
    · subst ht
      obtain rfl := Except.ok.inj hstep
      exact h.2.complete h.1
    · rw [Starts.firstItem around t ht] at hstep
      have hempty : Json.Fits (.array [] :: around) := ⟨h.1, h.2⟩
      exact hempty.stepValue hl hstep
  | firstKey around =>
    cases t with
    | closeObject =>
      obtain rfl := Except.ok.inj hstep
      exact h.2.complete h.1
    | text key =>
      obtain rfl := Except.ok.inj hstep
      exact ⟨h.1, h.2⟩
    | _ => cases hstep
  | nextKey ms around => exact h.2.stepKey h.1 hstep
  | colon key ms around =>
    cases t with
    | colon =>
      obtain rfl := Except.ok.inj hstep
      exact h
    | _ => cases hstep
  | afterItem js around =>
    -- A comma changes nothing; with the bracket the array counts one more than its items.
    cases t with
    | comma =>
      obtain rfl := Except.ok.inj hstep
      exact h
    | closeArray =>
      obtain rfl := Except.ok.inj hstep
      refine h.2.complete ?_
      rw [depth, depthItems_reverse, Nat.add_comm _ 1, ← Nat.add_assoc]
      exact h.1
    | _ => cases hstep
  | afterMember ms around =>
    cases t with
    | comma =>
      obtain rfl := Except.ok.inj hstep
      exact h
    | closeObject =>
      obtain rfl := Except.ok.inj hstep
      refine h.2.complete ?_
      rw [depth, depthMembers_reverse, Nat.add_comm _ 1, ← Nat.add_assoc]
      exact h.1
    | _ => cases hstep
  | done j => cases hstep

/-! ### Documents -/

/-- Where the reader is, the text before it and what it holds are as they must be. -/
theorem reached_of_scan (hrun : (scan s).foldlM Reading.step (Reading.value []) = .ok r) :
    Reached r s ∧ r.Fits :=
  keeps_scan (P := fun r pre => Reached r pre ∧ r.Fits) (fun r r' _ ht => Reading.step_ill ht r r')
    (fun _ _ _ hc h => ⟨h.1.space hc, h.2⟩)
    (fun _ _ _ _ _ hl hstep h => ⟨h.1.step hl hstep, h.2.step hl hstep⟩)
    ⟨.value (.document .nil), trivial⟩ hrun

/-- **The documents that are read are those that the grammar writes within the limit of depth.** -/
theorem readDocument_eq_ok_iff {text : String} :
    readDocument text = .ok j ↔ IsText text j ∧ j.depth ≤ maxDepth := by
  constructor
  · intro h
    unfold readDocument ofTokens at h
    cases hrun : (scan text.toList).foldlM Reading.step (Reading.value []) with
    | error f => rw [hrun] at h; cases h
    | ok r =>
      rw [hrun] at h
      change r.finish = .ok j at h
      obtain ⟨hreached, hfits⟩ := reached_of_scan hrun
      cases r with
      | done i =>
        obtain rfl := Except.ok.inj h
        cases hreached with
        | done hs => exact ⟨hs, hfits⟩
      | _ => cases h
  · rintro ⟨htext, hdepth⟩
    have hruns := runs_of_written htext [] (.value []) (fun _ _ => rfl) (by simpa using hdepth)
    unfold readDocument ofTokens
    rw [hruns.foldlM_eq]
    rfl

end Switchboard.Json

import Mathlib.Data.List.Dedup
import Switchboard.Http.Headers
import Switchboard.Proofs.Text.Order

/-!
# Header fields as the last writes

Whatever header fields were put together from, they are the last writes of all names: a write takes the
place of every spelling of its name, and of nothing else.

- `Headers.stored?`: the entry for a name in any spelling; `stored?_insert`, `stored?_insertAll`.
- `lastWrite?`: the last of some writes to a name.
- `Headers.Build`: how header fields come about, and the writes that make them.
- `get?_insert`, `get?_overlay`, `get?_mapValues`: what is found after the operations.
- `last_writes`: the header fields of a build by its writes.

`Build` has a constructor for each operation that makes header fields, so a statement about all of its
values is one about all header fields of a program. Each operation is some writes (`Build.headers_eq`),
and from there on only `insertAll` is left to reason about.
-/

namespace Switchboard.Http.Headers

variable {h : Headers} {n name value : String} {e : String × String}
  {ws ws' : List (String × String)}

/-! ### Entries -/

def hasName (n : String) (e : String × String) : Bool := Text.sameName e.1 n

/-- The entry for a name. -/
def stored? (h : Headers) (n : String) : Option (String × String) := List.find? (hasName n) h.entries

theorem get?_eq (h : Headers) (n : String) : h.get? n = (h.stored? n).map (·.2) := rfl

theorem nodup_names (h : Headers) : (h.entries.map fun e => Text.lower e.1).Nodup :=
  List.pairwise_map.mpr (h.distinct.imp Text.sameName_eq_false_iff.mp)

/-- Only one entry has the name, from whichever end it is looked for. -/
theorem find?_hasName_iff {l : List (String × String)} (hl : ∀ e, e ∈ l ↔ e ∈ h.entries) :
    l.find? (hasName n) = some e ↔ e ∈ h.entries ∧ Text.sameName e.1 n = true := by
  constructor
  · intro he
    have hname : hasName n e = true := List.find?_some he
    exact ⟨(hl e).mp (List.mem_of_find?_eq_some he), hname⟩
  · rintro ⟨hmem, hname⟩
    have hsome : (l.find? (hasName n)).isSome := List.find?_isSome.mpr ⟨e, (hl e).mpr hmem, hname⟩
    obtain ⟨e', he'⟩ := Option.isSome_iff_exists.mp hsome
    have hmem' := (hl e').mp (List.mem_of_find?_eq_some he')
    have hname' : hasName n e' = true := List.find?_some he'
    have hsame := (Text.sameName_iff.mp hname').trans (Text.sameName_iff.mp hname).symm
    rw [he', List.inj_on_of_nodup_map h.nodup_names hmem' hmem hsame]

theorem stored?_eq_some_iff :
    h.stored? n = some e ↔ e ∈ h.entries ∧ Text.sameName e.1 n = true :=
  find?_hasName_iff fun _ => Iff.rfl

theorem mem_insert : e ∈ (h.insert name value).entries ↔
    e = (name, value) ∨ e ∈ h.entries ∧ Text.sameName e.1 name = false := by
  show e ∈ Dictionary.insert name value (others name h.entries) ↔ _
  rw [(perm_insert_others name value h.entries).mem_iff, List.mem_cons, mem_others]

/-- A write is found under its name, and all others as before. -/
theorem stored?_insert (h : Headers) (name value n : String) : (h.insert name value).stored? n =
    if Text.sameName name n then some (name, value) else h.stored? n := by
  apply Option.ext
  intro e
  rw [stored?_eq_some_iff, mem_insert]
  split
  · rename_i hname
    -- What is stored beside the write has another name.
    constructor
    · rintro ⟨rfl | ⟨-, hne⟩, he⟩
      · rfl
      · refine absurd ?_ (Text.sameName_eq_false_iff.mp hne)
        exact (Text.sameName_iff.mp he).trans (Text.sameName_iff.mp hname).symm
    · intro he
      obtain rfl := Option.some.inj he
      exact ⟨.inl rfl, hname⟩
  · rename_i hname
    rw [stored?_eq_some_iff]
    constructor
    · rintro ⟨rfl | ⟨hmem, -⟩, he⟩
      · exact absurd he hname
      · exact ⟨hmem, he⟩
    · rintro ⟨hmem, he⟩
      refine ⟨.inr ⟨hmem, Text.sameName_eq_false_iff.mpr fun heq => hname ?_⟩, he⟩
      exact Text.sameName_iff.mpr (heq.symm.trans (Text.sameName_iff.mp he))

/-! ### Writes -/

/-- The last write to a name. -/
def lastWrite? (ws : List (String × String)) (n : String) : Option (String × String) :=
  ws.reverse.find? (hasName n)

theorem lastWrite?_cons (w : String × String) (ws : List (String × String)) (n : String) :
    lastWrite? (w :: ws) n =
      (lastWrite? ws n).or (if Text.sameName w.1 n then some w else none) := by
  unfold lastWrite?
  rw [List.reverse_cons, List.find?_append, List.find?_singleton]
  rfl

theorem mem_of_lastWrite? (he : lastWrite? ws n = some e) : e ∈ ws :=
  List.mem_reverse.mp (List.mem_of_find?_eq_some he)

theorem isSome_lastWrite? :
    (lastWrite? ws n).isSome ↔ ∃ w ∈ ws, Text.sameName w.1 n = true := by
  unfold lastWrite?
  rw [List.find?_isSome]
  simp [hasName]

/-- Of one name there is one entry, so the last write to it is the only one. -/
theorem lastWrite?_entries (h : Headers) (n : String) : lastWrite? h.entries n = h.stored? n := by
  apply Option.ext
  intro e
  rw [stored?_eq_some_iff]
  exact find?_hasName_iff fun _ => List.mem_reverse

/-- Under each name the last write is found, and what was there before if there is none. -/
theorem stored?_insertAll (h : Headers) (ws : List (String × String)) (n : String) :
    (h.insertAll ws).stored? n = (lastWrite? ws n).or (h.stored? n) := by
  induction ws generalizing h with
  | nil => rfl
  | cons w ws ih =>
    show ((h.insert w.1 w.2).insertAll ws).stored? n = _
    rw [ih, stored?_insert, lastWrite?_cons, Option.or_assoc]
    split <;> rfl

theorem stored?_ofPairs (ws : List (String × String)) (n : String) :
    (ofPairs ws).stored? n = lastWrite? ws n :=
  (stored?_insertAll empty ws n).trans (Option.or_none)

/-- What is written over other header fields wins, name by name. -/
theorem stored?_overlay (h other : Headers) (n : String) :
    (h.overlay other).stored? n = (other.stored? n).or (h.stored? n) := by
  unfold overlay
  rw [stored?_insertAll, lastWrite?_entries]

theorem insertAll_append (h : Headers) (ws ws' : List (String × String)) :
    h.insertAll (ws ++ ws') = (h.insertAll ws).insertAll ws' := List.foldl_append

/-- There are as many entries as names that were written. -/
theorem size_ofPairs (ws : List (String × String)) :
    (ofPairs ws).size = (ws.map fun w => Text.lower w.1).dedup.length := by
  have hperm : ((ofPairs ws).entries.map fun e => Text.lower e.1).Perm
      (ws.map fun w => Text.lower w.1).dedup := by
    refine (List.perm_ext_iff_of_nodup (nodup_names _) (List.nodup_dedup _)).mpr ?_
    intro l
    rw [List.mem_dedup, List.mem_map, List.mem_map]
    constructor
    · rintro ⟨e, he, rfl⟩
      have hentry := stored?_eq_some_iff.mpr ⟨he, Text.sameName_self e.1⟩
      rw [stored?_ofPairs] at hentry
      exact ⟨e, mem_of_lastWrite? hentry, rfl⟩
    · rintro ⟨w, hw, rfl⟩
      have hsome := isSome_lastWrite?.mpr ⟨w, hw, Text.sameName_self w.1⟩
      obtain ⟨e, he⟩ := Option.isSome_iff_exists.mp hsome
      rw [← stored?_ofPairs] at he
      obtain ⟨hmem, hname⟩ := stored?_eq_some_iff.mp he
      exact ⟨e, hmem, Text.sameName_iff.mp hname⟩
  have hlength := hperm.length_eq
  rwa [List.length_map] at hlength

/-! ### Look-up -/

theorem get?_insert (h : Headers) (name value n : String) : (h.insert name value).get? n =
    (if Text.sameName name n then some value else none).or (h.get? n) := by
  rw [get?_eq, stored?_insert, get?_eq]
  split <;> rfl

theorem get?_overlay (h other : Headers) (n : String) :
    (h.overlay other).get? n = (other.get? n).or (h.get? n) := by
  rw [get?_eq, stored?_overlay, Option.map_or]
  rfl

/-- New values stand under the old names. -/
theorem get?_mapValues (f : String → String) (h : Headers) (n : String) :
    (h.mapValues f).get? n = (h.get? n).map f := by
  have hwrite : lastWrite? (h.entries.map fun e => (e.1, f e.2)) n =
      (lastWrite? h.entries n).map fun e => (e.1, f e.2) := by
    unfold lastWrite?
    rw [← List.map_reverse, List.find?_map]
    rfl
  rw [get?_eq, mapValues, stored?_ofPairs, hwrite, lastWrite?_entries, get?_eq, Option.map_map,
    Option.map_map]
  rfl

/-! ### How header fields come about -/

/-- Header fields are written one by one, over others, from pairs, or from a map by its keys. -/
inductive Build
  | empty
  | insert (b : Build) (name value : String)
  | extend (b other : Build)
  | collect (pairs : List (String × String))
  | ofMap (map : Dictionary String) (h : map.Ordered)

namespace Build

def headers : Build → Headers
  | empty => .empty
  | insert b name value => b.headers.insert name value
  | extend b other => b.headers.overlay other.headers
  | collect pairs => ofPairs pairs
  | ofMap map _ => ofPairs map

/-- The writes in their order. Other header fields and maps are written in the order of their names. -/
def writes : Build → List (String × String)
  | empty => []
  | insert b name value => b.writes ++ [(name, value)]
  | extend b other => b.writes ++ other.headers.entries
  | collect pairs => pairs
  | ofMap map _ => map

theorem headers_eq (b : Build) : b.headers = ofPairs b.writes := by
  induction b with
  | empty => rfl
  | insert b name value ih =>
    rw [headers, ih]
    exact (insertAll_append .empty b.writes [(name, value)]).symm
  | extend b other ih _ =>
    rw [headers, ih]
    exact (insertAll_append .empty b.writes other.headers.entries).symm
  | collect pairs => rfl
  | ofMap map h => rfl

end Build

/-- An object of texts is read as the map that it is. -/
theorem ofJson_texts (map : Dictionary String) :
    ofJson (.obj (Dictionary.mapValues .str map)) = .ok (ofPairs map) := by
  have htexts : textEntries (Dictionary.mapValues .str map) = .ok map := by
    induction map with
    | nil => rfl
    | cons e map ih =>
      show (textEntries (Dictionary.mapValues .str map)).map ((e.1, e.2) :: ·) = _
      rw [ih]
      rfl
  show (textEntries _).map ofPairs = _
  rw [htexts]
  rfl

/-- **Header fields are the last writes.** However they were put together, no two names are the same up
to the case of ASCII letters, they stand in the order of their octets, and what is stored for a name, in
whatever spelling it is asked for, is the last write to it, spelled as that was. So a name is there if
it was ever written, and there are as many entries as names that were. -/
theorem last_writes (b : Build) :
    let h := b.headers
    let ws := b.writes
    h.entries.Pairwise (fun x y => Text.sameName x.1 y.1 = false) ∧
      h.entries.Pairwise (fun x y => Text.Utf8.encode x.1 < Text.Utf8.encode y.1) ∧
      (∀ n e, e ∈ h.entries ∧ Text.sameName e.1 n = true ↔ lastWrite? ws n = some e) ∧
      (∀ n, h.get? n = (lastWrite? ws n).map (·.2)) ∧
      (∀ n, h.contains n = true ↔ ∃ w ∈ ws, Text.sameName w.1 n = true) ∧
      h.size = (ws.map fun w => Text.lower w.1).dedup.length ∧
      ∀ map, ofJson (.obj (Dictionary.mapValues .str map)) = .ok (ofPairs map) := by
  intro h ws
  have hentry (n : String) : h.stored? n = lastWrite? ws n := by
    rw [← stored?_ofPairs, ← b.headers_eq]
  refine ⟨h.distinct, h.ordered.imp Text.Utf8.encode_lt, ?_, ?_, ?_, ?_, ofJson_texts⟩
  · intro n e
    rw [← hentry, stored?_eq_some_iff]
  · intro n
    rw [get?_eq, hentry]
  · intro n
    rw [← isSome_lastWrite?, ← hentry, contains, get?_eq, Option.isSome_map]
  · rw [← size_ofPairs, ← b.headers_eq]

/-- Only ASCII letters have a case: the two spellings of a letter with an accent are two names. -/
example :
    let b : Build := .insert (.insert (.collect [("É", "a"), ("X-A", "1")]) "é" "b") "x-a" "2"
    b.headers.entries = [("x-a", "2"), ("É", "a"), ("é", "b")] := by decide +kernel

end Switchboard.Http.Headers

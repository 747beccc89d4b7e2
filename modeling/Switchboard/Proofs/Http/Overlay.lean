import Mathlib.Data.List.Induction
import Mathlib.Tactic.SplitIfs
import Switchboard.Proofs.Http.Headers
import Switchboard.Proofs.Json.Printing

/-!
# The algebra of header fields

Header fields are laid over others in the order of their names and not in that in which they were
written, and a write takes the place of the spelling too. That no two names are the same up to case
makes up for both: header fields are determined by what is stored for each name, and each law holds name
by name.

- `Dictionary.ofEntries_eq_of_perm`: the order in which different keys are written does not matter.
- `Headers.ext_stored`: header fields are what is stored for each name.
- `Headers.Greatest`: of the spellings of a name the greatest is kept; `greatest_ofPairs`.
- `Headers.read_texts`: an object of texts is read from any text of it.
- `Headers.overlay_laws`: the laws of writing header fields over others.

The laws are about the entries and not only about look-up: `stored?` gives a name with its spelling.
With `ext_stored` each of them becomes a law of `Option.or`, in which writing over has the second side
first.

Which spelling survives when header fields come from a map is decided by the map. Its entries are
written in the order of their keys, so the greatest key is written last. `Greatest` says this without an
order of writing, by the octets of the spellings, and so it carries over to the text of an object with
its members in any order.
-/

namespace Switchboard

namespace Dictionary

variable {α β : Type} {d d' : Dictionary α} {ms ms' : List (String × α)}

/-! ### Keys in another order -/

theorem Ordered.nodup_keys (h : d.Ordered) : (d.map Prod.fst).Nodup :=
  List.pairwise_map.mpr (h.imp Std.ne_of_lt)

/-- Entries in order are determined by which ones there are. -/
theorem Ordered.eq_of_mem_iff (h : d.Ordered) (h' : d'.Ordered) (hmem : ∀ e, e ∈ d ↔ e ∈ d') :
    d = d' := by
  have hperm : d.Perm d' := by
    refine (List.perm_ext_iff_of_nodup ?_ ?_).mpr hmem
    · exact h.nodup_keys.of_map
    · exact h'.nodup_keys.of_map
  refine hperm.eq_of_pairwise ?_ h h'
  intro a b _ _ hab hba
  exact absurd hba (String.lt_asymm hab)

theorem ofEntries_concat (ms : List (String × α)) (e : String × α) :
    ofEntries (ms ++ [e]) = insert e.1 e.2 (ofEntries ms) := by
  rw [ofEntries, List.foldl_append]
  rfl

/-- No entry is lost if each key is written once. -/
theorem perm_ofEntries (h : (ms.map Prod.fst).Nodup) : (ofEntries ms).Perm ms := by
  induction ms using List.reverseRecOn with
  | nil => exact .refl _
  | append_singleton ms e ih =>
    rw [List.map_append, List.nodup_append] at h
    obtain ⟨hms, -, hne⟩ := h
    have hperm := ih hms
    have hnew : ∀ x ∈ ofEntries ms, e.1 ≠ x.1 := fun x hx heq =>
      hne x.1 (List.mem_map_of_mem (hperm.mem_iff.mp hx)) e.1 (by simp) heq.symm
    rw [ofEntries_concat]
    exact (perm_insert hnew e.2).trans ((hperm.cons e).trans (List.perm_append_singleton e ms).symm)

theorem ofEntries_eq_of_perm (h : (ms.map Prod.fst).Nodup) (hperm : ms'.Perm ms) :
    ofEntries ms' = ofEntries ms := by
  have h' : (ms'.map Prod.fst).Nodup := (hperm.map Prod.fst).nodup_iff.mpr h
  refine (ordered_ofEntries ms').eq_of_mem_iff (ordered_ofEntries ms) fun e => ?_
  rw [(perm_ofEntries h').mem_iff, (perm_ofEntries h).mem_iff, hperm.mem_iff]

theorem insert_mapValues (f : α → β) (key : String) (value : α) (d : Dictionary α) :
    insert key (f value) (mapValues f d) = mapValues f (insert key value d) := by
  induction d with
  | nil => rfl
  | cons e rest ih =>
    have hcons : mapValues f (e :: rest) = (e.1, f e.2) :: mapValues f rest := rfl
    rw [hcons, insert, insert, ih]
    split
    · rfl
    · split <;> rfl

theorem ofEntries_mapValues (f : α → β) (ms : List (String × α)) :
    ofEntries (mapValues f ms) = mapValues f (ofEntries ms) := by
  induction ms using List.reverseRecOn with
  | nil => rfl
  | append_singleton ms e ih =>
    have hconcat : mapValues f (ms ++ [e]) = mapValues f ms ++ [(e.1, f e.2)] := List.map_append
    rw [hconcat, ofEntries_concat, ofEntries_concat, ih]
    exact insert_mapValues f e.1 e.2 _

end Dictionary

namespace Http.Headers

open Text.Utf8 (encode)

variable {h h' : Headers} {n : String} {e : String × String} {ms : List (String × String)}

/-! ### Laws by name -/

theorem mem_entries_iff : e ∈ h.entries ↔ h.stored? e.1 = some e := by
  rw [stored?_eq_some_iff, and_iff_left (Text.sameName_self e.1)]

/-- Header fields are what is stored for each name. -/
theorem ext_stored (hs : ∀ n, h.stored? n = h'.stored? n) : h = h' := by
  have hentries : h.entries = h'.entries := by
    refine h.ordered.eq_of_mem_iff h'.ordered fun e => ?_
    rw [mem_entries_iff, mem_entries_iff, hs]
  cases h
  cases h'
  cases hentries
  rfl

theorem ofPairs_entries (h : Headers) : ofPairs h.entries = h := by
  refine ext_stored fun n => ?_
  rw [stored?_ofPairs, lastWrite?_entries]

/-- Writes that go on are writes of all that they come to. -/
theorem insertAll_eq (h : Headers) (ws : List (String × String)) :
    h.insertAll ws = h.overlay (ofPairs ws) := by
  refine ext_stored fun n => ?_
  rw [stored?_insertAll, stored?_overlay, stored?_ofPairs]

theorem overlay_assoc (a b c : Headers) : (a.overlay b).overlay c = a.overlay (b.overlay c) := by
  refine ext_stored fun n => ?_
  rw [stored?_overlay, stored?_overlay, stored?_overlay, stored?_overlay, Option.or_assoc]

theorem empty_overlay (h : Headers) : empty.overlay h = h := ofPairs_entries h

theorem overlay_empty (h : Headers) : h.overlay empty = h := rfl

theorem overlay_self (h : Headers) : h.overlay h = h := by
  refine ext_stored fun n => ?_
  rw [stored?_overlay, Option.or_self]

/-- Writes to different names do not meet. -/
theorem insert_comm {m : String} (hne : Text.sameName n m = false) (h : Headers) (v w : String) :
    (h.insert n v).insert m w = (h.insert m w).insert n v := by
  refine ext_stored fun k => ?_
  rw [stored?_insert, stored?_insert, stored?_insert, stored?_insert]
  split_ifs with hm hn
  · have hsame := (Text.sameName_iff.mp hn).trans (Text.sameName_iff.mp hm).symm
    exact absurd hsame (Text.sameName_eq_false_iff.mp hne)
  · rfl
  · rfl
  · rfl

/-! ### The greatest spelling -/

/-- A map is written in the order of its names, so no spelling is greater than that of the last write.
-/
theorem le_lastWrite? {map : Dictionary String} (hmap : map.Ordered) (he : lastWrite? map n = some e)
    {e' : String × String} (he' : e' ∈ map) (hname' : Text.sameName e'.1 n = true) : e'.1 ≤ e.1 := by
  obtain ⟨-, later, earlier, hsplit, hother⟩ := List.find?_eq_some_iff_append.mp he
  have hordered : map.reverse.Pairwise fun a b => b.1 < a.1 := List.pairwise_reverse.mpr hmap
  have hmem : e' ∈ map.reverse := List.mem_reverse.mpr he'
  rw [hsplit] at hordered hmem
  -- What is written after the entry has another name.
  rcases List.mem_append.mp hmem with hlater | hrest
  · have hnot := hother e' hlater
    rw [hasName, hname'] at hnot
    cases hnot
  · rcases List.mem_cons.mp hrest with rfl | hearlier
    · exact String.le_refl _
    · exact Std.le_of_lt (List.rel_of_pairwise_cons (List.pairwise_append.mp hordered).2.1 hearlier)

/-- The last write of a map to a name is that of its greatest spelling. -/
theorem lastWrite?_ordered {map : Dictionary String} (hmap : map.Ordered) :
    lastWrite? map n = some e ↔
      (e ∈ map ∧ Text.sameName e.1 n = true) ∧
        ∀ e' ∈ map, Text.sameName e'.1 n = true → e'.1 ≤ e.1 := by
  constructor
  · intro he
    have hname : hasName n e = true := List.find?_some he
    exact ⟨⟨mem_of_lastWrite? he, hname⟩, fun e' => le_lastWrite? hmap he⟩
  · rintro ⟨⟨hmem, hname⟩, hle⟩
    obtain ⟨e', he'⟩ := Option.isSome_iff_exists.mp (isSome_lastWrite?.mpr ⟨e, hmem, hname⟩)
    have hmem' := mem_of_lastWrite? he'
    have hname' : hasName n e' = true := List.find?_some he'
    have hkey : e'.1 = e.1 := Std.le_antisymm (hle e' hmem' hname') (le_lastWrite? hmap he' hmem hname)
    rw [he', List.inj_on_of_nodup_map hmap.nodup_keys hmem' hmem hkey]

/-- Of the entries of a map that have one name, the one is kept whose spelling is the greatest by its
octets. -/
structure Greatest (map : List (String × String)) (h : Headers) : Prop where
  mem_iff : ∀ e, e ∈ h.entries ↔
    e ∈ map ∧ ∀ e' ∈ map, Text.sameName e'.1 e.1 = true → encode e'.1 ≤ encode e.1
  contains : ∀ e ∈ map, h.contains e.1 = true

theorem Greatest.of_perm {h : Headers} (hg : Greatest ms h) {ms' : List (String × String)}
    (hperm : ms.Perm ms') : Greatest ms' h := by
  refine ⟨fun e => ?_, fun e he => hg.contains e (hperm.mem_iff.mpr he)⟩
  simp only [hg.mem_iff, hperm.mem_iff]

theorem greatest_ofPairs {map : Dictionary String} (hmap : map.Ordered) :
    Greatest map (ofPairs map) := by
  constructor
  · intro e
    rw [mem_entries_iff, stored?_ofPairs, lastWrite?_ordered hmap,
      and_iff_left (Text.sameName_self e.1)]
    simp only [Text.Utf8.encode_le_iff]
  · intro e he
    rw [contains, get?_eq, Option.isSome_map, stored?_ofPairs]
    exact isSome_lastWrite?.mpr ⟨e, he, Text.sameName_self e.1⟩

/-! ### Objects of texts -/

theorem integral_texts (ms : List (String × String)) :
    (Json.obj (Dictionary.mapValues .str ms)).Integral := by
  unfold Json.Integral
  induction ms with
  | nil => exact trivial
  | cons e ms ih => exact ⟨trivial, ih⟩

theorem depth_texts (ms : List (String × String)) :
    (Json.obj (Dictionary.mapValues .str ms)).depth = 1 := by
  have hmembers : Json.depthMembers (Dictionary.mapValues .str ms) = 0 := by
    induction ms with
    | nil => rfl
    | cons e ms ih =>
      show max 0 (Json.depthMembers (Dictionary.mapValues .str ms)) = 0
      rw [ih]
      rfl
  rw [Json.depth, hmembers]

theorem normalize_texts (ms : List (String × String)) :
    (Json.obj (Dictionary.mapValues .str ms)).normalize =
      .obj (Dictionary.mapValues .str (Dictionary.ofEntries ms)) := by
  have hmembers : Json.normalizeMembers (Dictionary.mapValues .str ms) =
      Dictionary.mapValues .str ms := by
    induction ms with
    | nil => rfl
    | cons e ms ih =>
      show (e.1, Json.str e.2) :: Json.normalizeMembers (Dictionary.mapValues .str ms) = _
      rw [ih]
      rfl
  rw [Json.normalize, hmembers, Json.ofMembers, Dictionary.ofEntries_mapValues]

/-- An object of texts is read as the map that its members make, however it is written. -/
theorem read_texts {text : String} (h : Json.IsText text (.obj (Dictionary.mapValues .str ms))) :
    ∃ j, Json.read text = .ok j ∧ ofJson j = .ok (ofPairs (Dictionary.ofEntries ms)) := by
  have hdepth : (Json.obj (Dictionary.mapValues .str ms)).depth ≤ Json.maxDepth := by
    rw [depth_texts]
    decide
  refine ⟨_, ?_, ofJson_texts _⟩
  rw [Json.read, Json.readDocument_eq_ok_iff.mpr ⟨h, hdepth⟩, ← normalize_texts]
  rfl

/-- **The algebra of header fields.** To write on is to lay over what all later writes come to; laying
over is associative, nothing is neutral on both sides, and laying the same over once more changes nothing.
Writes to names that differ in more than case may be exchanged.

Header fields come back from a map of their entries, from an object, and from the text of that. Of any map,
in which names may be the same up to case, the greatest spelling of each name by its octets is kept with its
value; and so it is of a text of an object with different keys, in whatever order these are written. -/
theorem overlay_laws :
    (∀ xs ys, ofPairs (xs ++ ys) = (ofPairs xs).overlay (ofPairs ys)) ∧
    (∀ a b c : Headers, (a.overlay b).overlay c = a.overlay (b.overlay c)) ∧
    (∀ a : Headers, empty.overlay a = a ∧ a.overlay empty = a) ∧
    (∀ a b : Headers, a.overlay a = a ∧ (a.overlay b).overlay b = a.overlay b) ∧
    (∀ n m, Text.sameName n m = false → ∀ (h : Headers) v w,
      (h.insert n v).insert m w = (h.insert m w).insert n v) ∧
    (∀ h : Headers, ofPairs h.entries = h ∧ ofJson h.toJson = .ok h ∧
      ∃ j, Json.read h.toJson.text = .ok j ∧ ofJson j = .ok h) ∧
    (∀ map : Dictionary String, map.Ordered → Greatest map (ofPairs map)) ∧
    ∀ ms : List (String × String), (ms.map Prod.fst).Nodup → ∃ h, Greatest ms h ∧
      ∀ ms' text, ms'.Perm ms → Json.IsText text (.obj (Dictionary.mapValues .str ms')) →
        ∃ j, Json.read text = .ok j ∧ ofJson j = .ok h := by
  refine ⟨fun xs ys => ?_, overlay_assoc, fun a => ⟨empty_overlay a, overlay_empty a⟩,
    fun a b => ⟨overlay_self a, ?_⟩, fun n m hne h v w => insert_comm hne h v w,
    fun h => ⟨ofPairs_entries h, ?_, ?_⟩, fun map => greatest_ofPairs, fun ms hms => ?_⟩
  · exact (insertAll_append empty xs ys).trans (insertAll_eq _ ys)
  · rw [overlay_assoc, overlay_self]
  · rw [toJson, ofJson_texts, ofPairs_entries]
  · have hread := read_texts (Json.isText_text (integral_texts h.entries))
    rwa [h.ordered.ofEntries_eq, ofPairs_entries] at hread
  · refine ⟨ofPairs (Dictionary.ofEntries ms), ?_, fun ms' text hperm htext => ?_⟩
    · exact (greatest_ofPairs (Dictionary.ordered_ofEntries ms)).of_perm (Dictionary.perm_ofEntries hms)
    · have hread := read_texts htext
      rwa [Dictionary.ofEntries_eq_of_perm hms hperm] at hread

/-- Of four spellings of two names the greater two are kept, from a map and from either end of an
object. -/
theorem overlay_laws_spellings :
    let map : Dictionary String := [("X-A", "3"), ("X-B", "2"), ("x-a", "1"), ("x-b", "4")]
    let text := "\x7b\"x-a\":\"1\",\"X-B\":\"2\",\"X-A\":\"3\",\"x-b\":\"4\"\x7d"
    let text' := "\x7b\"x-b\":\"4\",\"X-A\":\"3\",\"X-B\":\"2\",\"x-a\":\"1\"\x7d"
    (empty.insert "X-A" "3").insert "x-b" "4" = (empty.insert "x-b" "4").insert "X-A" "3" ∧
      ("x-a", "1") ∈ (ofPairs map).entries ∧
      ∃ h : Headers, ("x-a", "1") ∈ h.entries ∧ ("x-b", "4") ∈ h.entries ∧
        ("X-A", "3") ∉ h.entries ∧ ("X-B", "2") ∉ h.entries ∧
        (∃ j, Json.read text = .ok j ∧ ofJson j = .ok h) ∧
        ∃ j, Json.read text' = .ok j ∧ ofJson j = .ok h := by
  intro map text text'
  let ms := [("x-a", "1"), ("X-B", "2"), ("X-A", "3"), ("x-b", "4")]
  obtain ⟨-, -, -, -, hcomm, -, hmap, hobject⟩ := overlay_laws
  obtain ⟨h, hgreatest, hread⟩ := hobject ms (by decide)
  have hordered : map.Ordered := by
    unfold Dictionary.Ordered
    decide +kernel
  have htext : Json.IsText text (.obj (Dictionary.mapValues .str ms)) := by
    have heq : text = (Json.obj (Dictionary.mapValues .str ms)).text := by decide +kernel
    exact heq ▸ Json.isText_text (integral_texts ms)
  have htext' : Json.IsText text' (.obj (Dictionary.mapValues .str ms.reverse)) := by
    have heq : text' = (Json.obj (Dictionary.mapValues .str ms.reverse)).text := by decide +kernel
    exact heq ▸ Json.isText_text (integral_texts ms.reverse)
  refine ⟨hcomm "X-A" "x-b" (by decide +kernel) empty "3" "4", ?_, h, ?_, ?_, ?_, ?_,
    hread ms text (.refl _) htext, hread _ text' (List.reverse_perm ms) htext'⟩
  · rw [(hmap map hordered).mem_iff]
    decide +kernel
  all_goals
    rw [hgreatest.mem_iff]
    decide +kernel

end Http.Headers

end Switchboard

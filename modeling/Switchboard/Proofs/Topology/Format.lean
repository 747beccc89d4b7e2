import Mathlib.Data.List.Basic
import Switchboard.Proofs.Json.Reading
import Switchboard.Topology.Reader

/-!
# What announces a topology

An announcement is read as a topology token by token, with its shape and its addresses checked on the
way, yet neither the order of the checks nor the tokens show in which texts are accepted: those that
stand for an object of arrays of addresses, whatever a later member makes of an earlier one.

- `Address.IsAddress`, `Address.ofText_eq_ok_iff`: the texts that are addresses.
- `wireForm`, `Announces`: the document of an announcement, and a text that is one.
- `Announcement.reading`, `reading_step`: what is read as a topology is read as a document.
- `passes_servers`, `passes_entries`, `passes_object`: what the grammar writes is read as a topology.
- `read_iff_announces`: both directions, and the topology that is read.

The reader of topologies is an automaton of its own and calls no reader of documents. It is compared
with that one by a simulation: `reading` gives for each of its places the place of the other, and one
token takes both on alike. So whatever is accepted here is a document, and the grammar is known from
there. In the other direction no simulation helps, as the reader of documents accepts more. There the
phrases of the grammar that an announcement consists of are followed through the automaton one by one,
from the addresses to the whole object.

A member whose key comes again is read and checked like any other before it is lost. `Announces`
therefore speaks of all members, and only `last?` of those that count.
-/

namespace Switchboard

namespace Address

/-- What may stand as an address: some text without a scheme, path, query, fragment or white space. -/
structure IsAddress (text : String) : Prop where
  nonempty : text ≠ ""
  scheme : ¬ [':', '/', '/'] <:+: text.toList
  path : '/' ∉ text.toList
  query : '?' ∉ text.toList
  fragment : '#' ∉ text.toList
  blank : ∀ c ∈ text.toList, Text.isBlank c = false

variable {text : String} {a : Address}

theorem isAddress_iff_legal : IsAddress text ↔ Legal text := by
  have hforbidden : text.toList.any forbidden = false ↔
      ∀ c ∈ text.toList, c ≠ '/' ∧ c ≠ '?' ∧ c ≠ '#' ∧ Text.isBlank c = false := by
    simp only [List.any_eq_false, forbidden, Bool.or_eq_true, beq_iff_eq, not_or,
      Bool.not_eq_true, and_assoc]
  have hempty : text.toList ≠ [] ↔ text ≠ "" := by simp
  have hscheme : Text.contains [':', '/', '/'] text.toList = false ↔
      ¬ [':', '/', '/'] <:+: text.toList := by
    rw [Bool.eq_false_iff, Ne, Text.contains_iff]
  unfold Legal
  rw [hforbidden, hempty, hscheme]
  constructor
  · intro h
    refine ⟨h.nonempty, h.scheme, fun c hc => ⟨?_, ?_, ?_, h.blank c hc⟩⟩
    · exact fun heq => h.path (heq ▸ hc)
    · exact fun heq => h.query (heq ▸ hc)
    · exact fun heq => h.fragment (heq ▸ hc)
  · rintro ⟨hnonempty, hscheme, hall⟩
    exact ⟨hnonempty, hscheme, fun hc => (hall _ hc).1 rfl, fun hc => (hall _ hc).2.1 rfl,
      fun hc => (hall _ hc).2.2.1 rfl, fun c hc => (hall c hc).2.2.2⟩

theorem ofText_text (a : Address) : ofText a.text = .ok a := by
  obtain ⟨text, hempty, hscheme, hforbidden⟩ := a
  unfold ofText
  rw [dif_neg hempty, dif_neg (Bool.eq_false_iff.mp hscheme), dif_neg (Bool.eq_false_iff.mp hforbidden)]

theorem ofText_eq_ok_iff : ofText text = .ok a ↔ a.text = text := by
  constructor
  · intro h
    unfold ofText at h
    split at h
    · cases h
    · split at h
      · cases h
      · split at h
        · cases h
        · exact congrArg Address.text (Except.ok.inj h).symm
  · rintro rfl
    exact ofText_text a

/-- The texts of addresses are the texts that may stand as one. -/
theorem exists_map_text {texts : List String} (h : ∀ x ∈ texts, IsAddress x) :
    ∃ as : List Address, as.map Address.text = texts := by
  induction texts with
  | nil => exact ⟨[], rfl⟩
  | cons x texts ih =>
    obtain ⟨as, rfl⟩ := ih fun y hy => h y (List.mem_cons_of_mem _ hy)
    exact ⟨⟨x, isAddress_iff_legal.mp (h x List.mem_cons_self)⟩ :: as, rfl⟩

end Address

namespace Topology

open Json (Token Written Spelled Passes Reads Ends)

/-- The document of an announcement with these members. -/
def wireForm (members : List (String × List String)) : Json :=
  .obj (members.map fun m => (m.1, .arr (m.2.map .str)))

/-- The text is an announcement with these members, of which each is an array of addresses. -/
structure Announces (s : String) (members : List (String × List String)) : Prop where
  text : Json.IsText s (wireForm members)
  addresses : ∀ m ∈ members, ∀ x ∈ m.2, Address.IsAddress x

/-- The last of the members with a key. -/
def last? (key : String) (members : List (String × List String)) : Option (List String) :=
  (members.filter fun m => m.1 = key).getLast?.map (·.2)

/-- What the addresses of an entry are in a text. -/
def plain (e : String × List Address) : String × List String := (e.1, e.2.map Address.text)

/-- An entry as a member of a document. -/
def member (e : String × List Address) : String × Json := (e.1, addressesToJson e.2)

theorem wireForm_plain (entries : List (String × List Address)) :
    wireForm (entries.map plain) = .obj (entries.map member) := by
  simp [wireForm, plain, member, addressesToJson]

theorem exists_map_plain {members : List (String × List String)}
    (h : ∀ m ∈ members, ∀ x ∈ m.2, Address.IsAddress x) :
    ∃ entries : List (String × List Address), entries.map plain = members := by
  induction members with
  | nil => exact ⟨[], rfl⟩
  | cons m members ih =>
    obtain ⟨entries, rfl⟩ := ih fun y hy => h y (List.mem_cons_of_mem _ hy)
    obtain ⟨as, has⟩ := Address.exists_map_text (h m List.mem_cons_self)
    exact ⟨(m.1, as) :: entries, by rw [List.map_cons, plain, has]⟩

/-- Of the entries for a service the last one is looked up. -/
theorem find?_ofEntries_plain (service : String) (entries : List (String × List Address)) :
    (Dictionary.find? service (ofEntries entries).services).map (List.map Address.text) =
      last? service (entries.map plain) := by
  have hfilter : (entries.map plain).filter (fun m => m.1 = service) =
      (entries.filter fun e => e.1 = service).map plain := by
    rw [List.filter_map]
    rfl
  rw [last?, hfilter, List.getLast?_map, Option.map_map, ofEntries, Dictionary.find?_ofEntries,
    Option.map_map]
  rfl

/-- The addresses of its services make a topology. -/
theorem eq_of_find?_text {t t' : Topology}
    (h : ∀ service, (Dictionary.find? service t.services).map (List.map Address.text) =
      (Dictionary.find? service t'.services).map (List.map Address.text)) : t = t' := by
  have htext : Function.Injective Address.text := by
    rintro ⟨a, ha⟩ ⟨b, hb⟩ rfl
    rfl
  have hservices : t.services = t'.services :=
    t.ordered.ext t'.ordered fun service =>
      Option.map_injective (List.map_injective_iff.mpr htext) (h service)
  obtain ⟨services, ordered⟩ := t
  exact (Topology.mk.injEq ..).mpr hservices

/-! ### A topology is read as a document -/

namespace Announcement

variable {a a' : Announcement} {t : Token} {entries : List (String × List Address)} {service : String}
  {s : List Char} {b : Address}

/-- Where the reader of documents is at a place of an announcement. -/
def reading : Announcement → Json.Reading
  | start => .value []
  | firstKey => .firstKey []
  | nextKey entries => .nextKey (entries.map member) []
  | colon entries service => .colon service (entries.map member) []
  | servers entries service => .value [.object (entries.map member) service]
  | firstServer entries service => .firstItem [.object (entries.map member) service]
  | nextServer entries service bs =>
    .value [.array (bs.map fun b => .str b.text), .object (entries.map member) service]
  | afterServer entries service bs =>
    .afterItem (bs.map fun b => .str b.text) [.object (entries.map member) service]
  | afterEntry entries => .afterMember (entries.map member) []
  | done entries => .done (.obj (entries.map member).reverse)

/-- An address that is accepted stands for itself. -/
theorem stepServer_eq_ok {bs : List Address} (h : stepServer entries service bs t = .ok a) :
    ∃ b : Address, t = .text b.text ∧ a = afterServer entries service (b :: bs) := by
  cases t with
  | text x =>
    unfold stepServer at h
    dsimp only at h
    split at h
    · rename_i b hb
      exact ⟨b, by rw [Address.ofText_eq_ok_iff.mp hb], (Except.ok.inj h).symm⟩
    · cases h
  | _ => cases h

/-- **What one token does to an announcement, it does to a document.** -/
theorem reading_step (h : a.step t = .ok a') : a.reading.step t = .ok a'.reading := by
  cases a with
  -- An array may end here or go on with an address, which the token decides.
  | firstServer entries service =>
    by_cases ht : t = .closeArray
    · subst ht
      obtain rfl := Except.ok.inj h
      rfl
    · have hstep : stepServer entries service [] t = .ok a' := by
        cases t with
        | closeArray => exact absurd rfl ht
        | _ => exact h
      obtain ⟨b, rfl, rfl⟩ := stepServer_eq_ok hstep
      rfl
  | nextServer entries service bs =>
    obtain ⟨b, rfl, rfl⟩ := stepServer_eq_ok h
    rfl
  | afterServer entries service bs =>
    cases t with
    | comma =>
      obtain rfl := Except.ok.inj h
      rfl
    | closeArray =>
      obtain rfl := Except.ok.inj h
      simp [reading, Json.Reading.step, Json.Reading.complete, member, addressesToJson]
    | _ => cases h
  -- Elsewhere the token decides alone.
  | _ => cases t <;> cases h <;> rfl

theorem reading_foldlM {ts : List Token} (h : ts.foldlM step a = .ok a') :
    ts.foldlM Json.Reading.step a.reading = .ok a'.reading := by
  induction ts generalizing a with
  | nil => exact congrArg _ (congrArg reading (Except.ok.inj h))
  | cons t ts ih =>
    rw [List.foldlM_cons] at h ⊢
    cases hb : a.step t with
    | error e => rw [hb] at h; cases h
    | ok b =>
      rw [hb] at h
      rw [reading_step hb]
      exact ih h

/-! ### What is written is read as a topology -/

/-- A string of the grammar. -/
theorem reads_string {x : String} (h : Written (.value (.str x)) s)
    (hstep : a.step (.text x) = .ok a') : Passes step a s a' := by
  cases h with
  | number h => rcases Json.numeral_cases h with ⟨n, hn⟩ | ⟨r, hr⟩ <;> contradiction
  | string h => exact (Reads.string h hstep).passes

/-- White space around a value changes no place. -/
theorem passes_item {j : Json} (h : Written (.item j) s)
    (hvalue : ∀ {s}, Written (.value j) s → Passes step a s a') : Passes step a s a' := by
  cases h with
  | item hw h hw' => exact (Reads.spaces hw a).trans_passes ((hvalue h).spaces hw')

theorem stepServer_text (entries : List (String × List Address)) (service : String)
    (bs : List Address) (b : Address) :
    stepServer entries service bs (.text b.text) = .ok (afterServer entries service (b :: bs)) := by
  unfold stepServer
  dsimp only
  rw [Address.ofText_text]

/-- Addresses between the brackets. -/
theorem passes_servers (bs : List Address)
    (h : Written (.items (bs.map fun b => .str b.text)) s) :
    Passes step (firstServer entries service) s (afterServer entries service bs.reverse) := by
  generalize hjs : (bs.map fun b => Json.str b.text) = js at h
  revert hjs bs
  refine Json.Written.items_induction (P := fun js s => ∀ bs : List Address,
    (bs.map fun b => Json.str b.text) = js → Passes step (firstServer entries service) s
      (afterServer entries service bs.reverse)) ?_ ?_ h
  · intro j s h bs hbs
    obtain ⟨b, rfl, rfl⟩ := List.map_eq_singleton_iff.mp hbs
    exact passes_item h fun h => reads_string h (stepServer_text entries service [] b)
  · intro js t j s iht h bs hbs
    obtain ⟨bs, last, rfl, hinit, hlast⟩ := List.map_eq_append_iff.mp hbs
    obtain ⟨b, rfl, rfl⟩ := List.map_eq_singleton_iff.mp hlast
    have hcomma : Reads step (firstServer entries service) (t ++ [','])
        (nextServer entries service bs.reverse) :=
      (iht bs hinit).punctuation (by decide) rfl rfl
    have hall := hcomma.trans_passes (passes_item h fun h =>
      reads_string h (stepServer_text entries service bs.reverse b))
    rw [List.append_assoc, List.singleton_append] at hall
    rw [List.reverse_concat]
    exact hall

/-- The servers of a service. -/
theorem passes_array (bs : List Address) (h : Written (.value (addressesToJson bs)) s) :
    Passes step (servers entries service) s (afterEntry ((service, bs) :: entries)) := by
  have hopen : Reads step (servers entries service) ['['] (firstServer entries service) :=
    .punctuation rfl rfl rfl
  generalize hj : addressesToJson bs = j at h
  cases h with
  | emptyArray hw =>
    obtain rfl : bs = [] := by simpa [addressesToJson] using hj
    have hclose : Reads step (firstServer entries service) [']']
        (afterEntry ((service, []) :: entries)) := .punctuation rfl rfl rfl
    exact (hopen.trans ((Reads.spaces hw _).trans hclose)).passes
  | array h =>
    obtain rfl := Json.arr.inj hj
    have hclose : Reads step (firstServer entries service) (_ ++ [']'])
        (afterEntry ((service, bs.reverse.reverse) :: entries)) :=
      (passes_servers bs h).punctuation (by decide) rfl rfl
    rw [List.reverse_reverse] at hclose
    exact (hopen.trans hclose).passes
  | number h =>
    rcases Json.numeral_cases h with ⟨n, rfl⟩ | ⟨r, rfl⟩ <;> cases hj
  | _ => cases hj

/-- A service and its servers. -/
theorem passes_entry (ha : ∀ x, a.step (.text x) = stepKey entries (.text x))
    (bs : List Address) (h : Written (.member service (addressesToJson bs)) s) :
    Passes step a s (afterEntry ((service, bs) :: entries)) := by
  cases h with
  | member hw hk hw' h =>
    have hkey : Reads step a _ (colon entries service) := Reads.string hk (ha service)
    have hcolon : Reads step (colon entries service) [':'] (servers entries service) :=
      .punctuation rfl rfl rfl
    have hall := ((Reads.spaces hw a).trans (hkey.trans ((Reads.spaces hw' _).trans hcolon))).trans_passes
      (passes_item h (passes_array bs))
    simpa using hall

/-- Entries between the braces. -/
theorem passes_entries (es : List (String × List Address)) (h : Written (.members (es.map member)) s) :
    Passes step firstKey s (afterEntry es.reverse) := by
  generalize hms : es.map member = ms at h
  revert hms es
  refine Json.Written.members_induction (P := fun ms s => ∀ es : List (String × List Address),
    es.map member = ms → Passes step firstKey s (afterEntry es.reverse)) ?_ ?_ h
  · intro key j s h es hes
    obtain ⟨e, rfl, he⟩ := List.map_eq_singleton_iff.mp hes
    obtain ⟨rfl, rfl⟩ := Prod.mk.inj he
    exact passes_entry (fun _ => rfl) e.2 h
  · intro ms t key j s iht h es hes
    obtain ⟨es, last, rfl, hinit, hlast⟩ := List.map_eq_append_iff.mp hes
    obtain ⟨e, rfl, he⟩ := List.map_eq_singleton_iff.mp hlast
    obtain ⟨rfl, rfl⟩ := Prod.mk.inj he
    have hcomma : Reads step firstKey (t ++ [',']) (nextKey es.reverse) :=
      (iht es hinit).punctuation (by decide) rfl rfl
    have hall := hcomma.trans_passes (passes_entry (a := nextKey es.reverse) (fun _ => rfl) e.2 h)
    rw [List.append_assoc, List.singleton_append] at hall
    rw [List.reverse_concat]
    exact hall

/-- The whole object. -/
theorem passes_object (es : List (String × List Address))
    (h : Written (.value (.obj (es.map member))) s) :
    Passes step start s (done es.reverse) := by
  have hopen : Reads step start ['\x7b'] firstKey := .punctuation rfl rfl rfl
  generalize hms : es.map member = ms at h
  cases h with
  | emptyObject hw =>
    obtain rfl := List.map_eq_nil_iff.mp hms
    have hclose : Reads step firstKey ['\x7d'] (done []) := .punctuation rfl rfl rfl
    exact (hopen.trans ((Reads.spaces hw _).trans hclose)).passes
  | object h =>
    subst hms
    have hclose : Reads step firstKey (_ ++ ['\x7d']) (done es.reverse) :=
      (passes_entries es h).punctuation (by decide) rfl rfl
    exact (hopen.trans hclose).passes
  | number h => rcases Json.numeral_cases h with ⟨n, hn⟩ | ⟨r, hr⟩ <;> contradiction

end Announcement

variable {s : String}

/-- What the document of an announcement is read as. -/
theorem read_of_isText (entries : List (String × List Address))
    (h : Json.IsText s (.obj (entries.map member))) : read s = .ok (ofEntries entries) := by
  have hpasses := Announcement.passes_item h (Announcement.passes_object entries)
  unfold read ofTokens
  rw [hpasses.foldlM_eq]
  show Except.ok (ofEntries entries.reverse.reverse) = _
  rw [List.reverse_reverse]

/-- What is read is the document of an announcement. -/
theorem isText_of_read {t : Topology} (h : read s = .ok t) :
    ∃ entries : List (String × List Address),
      t = ofEntries entries ∧ Json.IsText s (.obj (entries.map member)) := by
  unfold read ofTokens at h
  cases hrun : (Json.scan s.toList).foldlM Announcement.step .start with
  | error e => rw [hrun] at h; cases h
  | ok a =>
    rw [hrun] at h
    change a.finish = .ok t at h
    cases a with
    | done entries =>
      refine ⟨entries.reverse, (Except.ok.inj h).symm, ?_⟩
      have hread : Json.readDocument s = .ok (.obj (entries.map member).reverse) := by
        have hdocument := Announcement.reading_foldlM hrun
        change (Json.scan s.toList).foldlM Json.Reading.step (.value []) = _ at hdocument
        unfold Json.readDocument Json.ofTokens
        rw [hdocument]
        rfl
      rw [List.map_reverse]
      exact (Json.readDocument_eq_ok_iff.mp hread).1
    | _ => cases h

/-- **A text is read as a topology exactly if it is an announcement**: one JSON text that stands for an
object of arrays of addresses, those of members that are overwritten later included. And the topology
has the addresses that the last member for each service lists, in their order, and no other service. -/
theorem read_iff_announces (s : String) :
    ((∃ t, read s = .ok t) ↔ ∃ members, Announces s members) ∧
      ∀ t, read s = .ok t ↔ ∃ members, Announces s members ∧
        ∀ service, (Dictionary.find? service t.services).map (List.map Address.text) =
          last? service members := by
  have hsound : ∀ t, read s = .ok t → ∃ members, Announces s members ∧
      ∀ service, (Dictionary.find? service t.services).map (List.map Address.text) =
        last? service members := by
    intro t h
    obtain ⟨entries, rfl, htext⟩ := isText_of_read h
    refine ⟨entries.map plain, ⟨?_, ?_⟩, fun service => find?_ofEntries_plain service entries⟩
    · rw [wireForm_plain]
      exact htext
    · intro m hm x hx
      obtain ⟨e, -, rfl⟩ := List.mem_map.mp hm
      obtain ⟨b, -, rfl⟩ := List.mem_map.mp hx
      exact Address.isAddress_iff_legal.mpr b.legal
  -- The addresses of the members are legal, so the members are those of entries with proofs of that.
  have hcomplete : ∀ members, Announces s members →
      ∃ entries, entries.map plain = members ∧ read s = .ok (ofEntries entries) := by
    intro members h
    obtain ⟨entries, rfl⟩ := exists_map_plain h.addresses
    exact ⟨entries, rfl, read_of_isText entries (wireForm_plain entries ▸ h.text)⟩
  refine ⟨⟨?_, ?_⟩, fun t => ⟨hsound t, ?_⟩⟩
  · rintro ⟨t, h⟩
    obtain ⟨members, hmembers, -⟩ := hsound t h
    exact ⟨members, hmembers⟩
  · rintro ⟨members, h⟩
    obtain ⟨entries, -, hread⟩ := hcomplete members h
    exact ⟨_, hread⟩
  · rintro ⟨members, h, hlast⟩
    obtain ⟨entries, rfl, hread⟩ := hcomplete members h
    have hsame : t = ofEntries entries :=
      eq_of_find?_text fun service => (hlast service).trans (find?_ofEntries_plain service entries).symm
    rw [hread, hsame]

end Topology

end Switchboard

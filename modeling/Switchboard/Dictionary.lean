/-!
# Dictionaries

Finite maps with text keys, kept as association lists in strictly increasing key order. The order
of texts is that of their code points, which is also that of their UTF-8 octets.

- `Dictionary.insert`: the entry for a key is replaced or put at its place.
- `Dictionary.find?`: the value of a key.
- `Dictionary.ofEntries`: entries inserted one after the other, so the last one for a key stays.
- `Dictionary.Ordered`: the order that all of these keep.
-/

namespace Switchboard

/-- Entries in key order. -/
abbrev Dictionary (α : Type) := List (String × α)

namespace Dictionary

variable {α β : Type}

def insert (key : String) (value : α) : Dictionary α → Dictionary α
  | [] => [(key, value)]
  | (k, v) :: rest =>
    if key = k then (key, value) :: rest
    else if key < k then (key, value) :: (k, v) :: rest
    else (k, v) :: insert key value rest

def find? (key : String) (d : Dictionary α) : Option α :=
  (List.find? (fun e => e.1 == key) d).map (·.2)

/-- Entries inserted from left to right. -/
def ofEntries (entries : List (String × α)) : Dictionary α :=
  entries.foldl (fun d e => insert e.1 e.2 d) []

def mapValues (f : α → β) (d : Dictionary α) : Dictionary β := d.map fun e => (e.1, f e.2)

/-- Keys strictly increase. -/
def Ordered (d : Dictionary α) : Prop := d.Pairwise fun a b => a.1 < b.1

/-! ### Entries -/

theorem mem_insert {key : String} {value : α} {d : Dictionary α} {e : String × α}
    (h : e ∈ insert key value d) : e = (key, value) ∨ e ∈ d := by
  induction d with
  | nil => exact .inl (by simpa [insert] using h)
  | cons a rest ih =>
    obtain ⟨k, v⟩ := a
    rw [insert] at h
    split at h
    · rcases List.mem_cons.mp h with h | h
      · exact .inl h
      · exact .inr (List.mem_cons_of_mem _ h)
    · split at h
      · exact List.mem_cons.mp h
      · rcases List.mem_cons.mp h with h | h
        · exact .inr (h ▸ List.mem_cons_self)
        · exact (ih h).imp_right (List.mem_cons_of_mem _)

theorem find?_cons (key k : String) (value : α) (d : Dictionary α) :
    find? k ((key, value) :: d) = if key = k then some value else find? k d := by
  unfold find?
  by_cases hk : key = k <;> simp [hk]

theorem find?_insert (key k : String) (value : α) (d : Dictionary α) :
    find? k (insert key value d) = if key = k then some value else find? k d := by
  induction d with
  | nil => exact find?_cons ..
  | cons a rest ih =>
    obtain ⟨l, v⟩ := a
    rw [insert]
    split
    · rename_i hkey
      subst hkey
      rw [find?_cons, find?_cons]
      split <;> rfl
    · rename_i hne
      split
      · exact find?_cons ..
      · rw [find?_cons, find?_cons, ih]
        by_cases hl : l = k
        · rw [if_pos hl, if_pos hl, if_neg (hl ▸ hne)]
        · rw [if_neg hl, if_neg hl]

/-- Of the entries for a key the last one stays. -/
theorem find?_ofEntries (key : String) (entries : List (String × α)) :
    find? key (ofEntries entries) =
      (entries.filter fun e => e.1 = key).getLast?.map (·.2) := by
  have hfold : ∀ (entries : List (String × α)) (d : Dictionary α),
      find? key (entries.foldl (fun d e => insert e.1 e.2 d) d) =
        ((entries.filter fun e => e.1 = key).getLast?.map (·.2)).or (find? key d) := by
    intro entries
    induction entries with
    | nil => exact fun d => rfl
    | cons e entries ih =>
      intro d
      rw [List.foldl_cons, ih, find?_insert, List.filter_cons]
      by_cases he : e.1 = key
      · rw [if_pos he, if_pos (decide_eq_true he), List.getLast?_cons]
        cases (entries.filter fun e => e.1 = key).getLast? <;> rfl
      · rw [if_neg he, if_neg (by simpa using he)]
  rw [ofEntries, hfold]
  exact Option.or_none

theorem mem_of_find? {key : String} {value : α} {d : Dictionary α} (h : find? key d = some value) :
    (key, value) ∈ d := by
  obtain ⟨e, he, rfl⟩ := Option.map_eq_some_iff.mp h
  have hkey : e.1 = key := by simpa using List.find?_some he
  exact hkey ▸ List.mem_of_find?_eq_some he

theorem exists_mem_of_find? {key : String} {value : α} {d : Dictionary α}
    (h : find? key d = some value) : ∃ e ∈ d, e.2 = value :=
  ⟨(key, value), mem_of_find? h, rfl⟩

/-! ### Order -/

theorem Ordered.insert {d : Dictionary α} (h : d.Ordered) (key : String) (value : α) :
    (Dictionary.insert key value d).Ordered := by
  induction d with
  | nil => exact List.pairwise_singleton _ _
  | cons a rest ih =>
    obtain ⟨k, v⟩ := a
    obtain ⟨hfirst, hrest⟩ := List.pairwise_cons.mp h
    rw [Dictionary.insert]
    split
    · rename_i hkey
      subst hkey
      exact List.pairwise_cons.mpr ⟨hfirst, hrest⟩
    · rename_i hne
      split
      · rename_i hlt
        refine List.pairwise_cons.mpr ⟨fun e he => ?_, h⟩
        rcases List.mem_cons.mp he with rfl | he
        · exact hlt
        · exact String.lt_trans hlt (hfirst e he)
      · rename_i hle
        refine List.pairwise_cons.mpr ⟨fun e he => ?_, ih hrest⟩
        rcases mem_insert he with rfl | he
        · exact Std.lt_of_le_of_ne hle (Ne.symm hne)
        · exact hfirst e he

theorem Ordered.filter {d : Dictionary α} (h : d.Ordered) (p : String × α → Bool) :
    Dictionary.Ordered (List.filter p d) := List.Pairwise.filter p h

theorem ordered_ofEntries (entries : List (String × α)) : (ofEntries entries).Ordered := by
  have hfold : ∀ (entries : List (String × α)) (d : Dictionary α), d.Ordered →
      Ordered (entries.foldl (fun d e => insert e.1 e.2 d) d) := by
    intro entries
    induction entries with
    | nil => exact fun d h => h
    | cons e entries ih => exact fun d h => ih _ (h.insert e.1 e.2)
  exact hfold entries [] List.Pairwise.nil

/-- A new key goes between the entries that it found. -/
theorem perm_insert {key : String} {d : Dictionary α} (h : ∀ e ∈ d, key ≠ e.1) (value : α) :
    (insert key value d).Perm ((key, value) :: d) := by
  induction d with
  | nil => exact .refl _
  | cons a rest ih =>
    obtain ⟨k, v⟩ := a
    have hrest := ih fun e he => h e (List.mem_cons_of_mem _ he)
    rw [insert, if_neg (h (k, v) List.mem_cons_self)]
    split
    · exact .refl _
    · exact (hrest.cons _).trans (.swap _ _ _)

/-- A key that is greater than all others goes to the end. -/
theorem insert_of_lt {key : String} {d : Dictionary α} (h : ∀ e ∈ d, e.1 < key) (value : α) :
    insert key value d = d ++ [(key, value)] := by
  induction d with
  | nil => rfl
  | cons a rest ih =>
    obtain ⟨k, v⟩ := a
    have hlt : k < key := h (k, v) List.mem_cons_self
    have hne : key ≠ k := fun heq => String.lt_irrefl k (heq ▸ hlt)
    rw [insert, if_neg hne, if_neg (String.lt_asymm hlt),
      ih fun e he => h e (List.mem_cons_of_mem _ he)]
    rfl

/-- Entries that are in order are their own dictionary. -/
theorem Ordered.ofEntries_eq {d : Dictionary α} (h : d.Ordered) : ofEntries d = d := by
  have hfold : ∀ (rest done : Dictionary α), Ordered (done ++ rest) →
      rest.foldl (fun d e => Dictionary.insert e.1 e.2 d) done = done ++ rest := by
    intro rest
    induction rest with
    | nil => exact fun done _ => (List.append_nil done).symm
    | cons e rest ih =>
      intro done hordered
      have hlast : ∀ a ∈ done, a.1 < e.1 := fun a ha =>
        (List.pairwise_append.mp hordered).2.2 a ha e List.mem_cons_self
      rw [List.foldl_cons, insert_of_lt hlast, ih _ (by simpa using hordered)]
      simp
  exact hfold d [] h

/-- A key stands once, so its entry is what is found. -/
theorem Ordered.find?_eq_some_iff {d : Dictionary α} (h : d.Ordered) {key : String} {value : α} :
    find? key d = some value ↔ (key, value) ∈ d := by
  refine ⟨mem_of_find?, fun hmem => ?_⟩
  induction d with
  | nil => cases hmem
  | cons e rest ih =>
    obtain ⟨hfirst, hrest⟩ := List.pairwise_cons.mp h
    obtain ⟨k, v⟩ := e
    rw [find?_cons]
    rcases List.mem_cons.mp hmem with heq | hin
    · obtain ⟨rfl, rfl⟩ := Prod.mk.inj heq
      exact if_pos rfl
    · have hne : k ≠ key := by
        rintro rfl
        exact String.lt_irrefl k (hfirst _ hin)
      rw [if_neg hne]
      exact ih hrest hin

/-- The values of its keys make a dictionary. -/
theorem Ordered.ext {d d' : Dictionary α} (h : d.Ordered) (h' : d'.Ordered)
    (hfind : ∀ key, find? key d = find? key d') : d = d' := by
  induction d generalizing d' with
  | nil =>
    cases d' with
    | nil => rfl
    | cons e' rest' =>
      have hkey := hfind e'.1
      rw [find?_cons, if_pos rfl] at hkey
      cases hkey
  | cons e rest ih =>
    cases d' with
    | nil =>
      have hkey := hfind e.1
      rw [find?_cons, if_pos rfl] at hkey
      cases hkey
    | cons e' rest' =>
      obtain ⟨hfirst, hrest⟩ := List.pairwise_cons.mp h
      obtain ⟨hfirst', hrest'⟩ := List.pairwise_cons.mp h'
      -- The first key of each is in the other, so neither is less.
      have hmem : (e.1, e.2) ∈ e' :: rest' :=
        mem_of_find? (by rw [← hfind, find?_cons, if_pos rfl])
      have hmem' : (e'.1, e'.2) ∈ e :: rest :=
        mem_of_find? (by rw [hfind, find?_cons, if_pos rfl])
      have hkey : e.1 = e'.1 := by
        rcases List.mem_cons.mp hmem with heq | hin
        · exact congrArg Prod.fst heq
        · rcases List.mem_cons.mp hmem' with heq | hin'
          · exact (congrArg Prod.fst heq).symm
          · exact absurd (hfirst _ hin') (String.lt_asymm (hfirst' _ hin))
      have hvalue : e.2 = e'.2 := by
        have hfirst := hfind e.1
        rw [find?_cons, find?_cons, if_pos rfl, if_pos hkey.symm] at hfirst
        exact Option.some.inj hfirst
      have hnone : ∀ {d : Dictionary α} {key : String}, (∀ e ∈ d, key < e.1) → find? key d = none := by
        intro d key hlt
        refine Option.eq_none_iff_forall_not_mem.mpr fun value hvalue => ?_
        exact String.lt_irrefl key (hlt _ (mem_of_find? hvalue))
      have htail : rest = rest' := by
        refine ih hrest hrest' fun key => ?_
        by_cases hk : e.1 = key
        · subst hk
          rw [hnone fun x hx => hfirst x hx, hnone fun x hx => hkey ▸ hfirst' x hx]
        · have hall := hfind key
          rwa [find?_cons, find?_cons, if_neg hk, if_neg (hkey ▸ hk)] at hall
      rw [htail, Prod.ext hkey hvalue]

end Dictionary

end Switchboard

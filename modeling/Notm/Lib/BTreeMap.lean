import Mathlib

/-!
# Ordered maps

`BTreeMap` as the list of its entries with increasing keys, which is the order that iterating it
has.

* `get?_insert` — looking up after an insertion, the one fact by which maps are reasoned about.
* `get?_eq_some_iff` — what is found are the entries, each key having one.
* `ofList_perm`, `ofList_perm_of_nodup` — when collecting a list into a map loses nothing.
* `mem_of_mem_ofList` — a collected map has no entries of its own.
-/

namespace Rust

variable {K V : Type*} [LinearOrder K]

/-- Put an entry at its place; it takes the place of an entry with the same key. The list stays
sorted (`insertEntry_sorted`), so that a map can carry that as a field. -/
def insertEntry (key : K) (value : V) : List (K × V) → List (K × V)
  | [] => [(key, value)]
  | entry :: rest =>
    if key < entry.1 then (key, value) :: entry :: rest
    else if key = entry.1 then (key, value) :: rest
    else entry :: insertEntry key value rest

theorem key_of_mem_insertEntry {key : K} {value : V} {entry : K × V} {entries : List (K × V)}
    (h : entry ∈ insertEntry key value entries) : entry = (key, value) ∨ entry ∈ entries := by
  induction entries with
  | nil => exact Or.inl (List.mem_singleton.1 h)
  | cons first rest ih =>
    unfold insertEntry at h
    split at h
    · exact List.mem_cons.1 h
    · split at h
      · exact (List.mem_cons.1 h).imp_right (List.mem_cons_of_mem first)
      · rcases List.mem_cons.1 h with rfl | h
        · exact Or.inr List.mem_cons_self
        · exact (ih h).imp_right (List.mem_cons_of_mem first)

/-- An insertion keeps the keys increasing, which is the invariant that `BTreeMap` carries. -/
theorem insertEntry_sorted {key : K} {value : V} {entries : List (K × V)}
    (h : entries.Pairwise (·.1 < ·.1)) : (insertEntry key value entries).Pairwise (·.1 < ·.1) := by
  induction entries with
  | nil => exact List.pairwise_singleton _ _
  | cons first rest ih =>
    obtain ⟨hfirst, hrest⟩ := List.pairwise_cons.1 h
    unfold insertEntry
    split
    · rename_i hlt
      refine List.pairwise_cons.2 ⟨fun entry hmem => ?_, h⟩
      rcases List.mem_cons.1 hmem with rfl | hmem
      · exact hlt
      · exact hlt.trans (hfirst entry hmem)
    · rename_i hnot
      split
      · rename_i heq
        refine List.pairwise_cons.2 ⟨fun entry hmem => ?_, hrest⟩
        show key < entry.1
        rw [heq]
        exact hfirst entry hmem
      · rename_i hne
        -- behind a smaller key the rest is sorted by induction, and what it holds is the new entry
        -- or old
        refine List.pairwise_cons.2 ⟨fun entry hmem => ?_, ih hrest⟩
        rcases key_of_mem_insertEntry hmem with rfl | hmem
        · exact lt_of_le_of_ne (not_lt.1 hnot) (Ne.symm hne)
        · exact hfirst entry hmem

/-- An entry with a new key comes in addition; otherwise there are as many entries as before. -/
theorem insertEntry_perm_or_length (key : K) (value : V) (entries : List (K × V)) :
    (insertEntry key value entries).Perm ((key, value) :: entries) ∨
      (insertEntry key value entries).length = entries.length := by
  induction entries with
  | nil => exact Or.inl (List.Perm.refl _)
  | cons first rest ih =>
    unfold insertEntry
    split
    · exact Or.inl (List.Perm.refl _)
    · split
      · exact Or.inr rfl
      · rcases ih with hperm | hlength
        · exact Or.inl ((hperm.cons first).trans (List.Perm.swap _ _ _))
        · exact Or.inr (congrArg (· + 1) hlength)

/-- A new key comes in addition. -/
theorem insertEntry_perm {key : K} {value : V} {entries : List (K × V)}
    (h : key ∉ entries.map Prod.fst) :
    (insertEntry key value entries).Perm ((key, value) :: entries) := by
  induction entries with
  | nil => exact List.Perm.refl _
  | cons first rest ih =>
    have hne : key ≠ first.1 := List.ne_of_not_mem_cons h
    have hrest : key ∉ rest.map Prod.fst := List.not_mem_of_not_mem_cons h
    unfold insertEntry
    rw [if_neg hne]
    split
    · exact List.Perm.refl _
    · exact ((ih hrest).cons first).trans (List.Perm.swap _ _ _)

/-- An entry with the greatest key goes to the end. -/
theorem insertEntry_of_greater {key : K} {value : V} {entries : List (K × V)}
    (h : ∀ entry ∈ entries, entry.1 < key) :
    insertEntry key value entries = entries ++ [(key, value)] := by
  induction entries with
  | nil => rfl
  | cons first rest ih =>
    have hlt := h first List.mem_cons_self
    unfold insertEntry
    rw [if_neg hlt.not_gt, if_neg hlt.ne',
      ih fun entry hmem => h entry (List.mem_cons_of_mem _ hmem)]
    rfl

/-- `std::collections::BTreeMap`: the entries with increasing keys. That they increase is a field,
so no two entries of a map have the same key. -/
@[ext] structure BTreeMap (K V : Type*) [LinearOrder K] where
  entries : List (K × V)
  sorted : entries.Pairwise (·.1 < ·.1)
deriving DecidableEq

namespace BTreeMap

def empty : BTreeMap K V := ⟨[], .nil⟩

def insert (map : BTreeMap K V) (key : K) (value : V) : BTreeMap K V :=
  ⟨insertEntry key value map.entries, insertEntry_sorted map.sorted⟩

def remove (map : BTreeMap K V) (key : K) : BTreeMap K V :=
  ⟨map.entries.filter fun entry => entry.1 ≠ key, map.sorted.filter _⟩

/-- `get`. -/
def get? (map : BTreeMap K V) (key : K) : Option V :=
  (map.entries.find? fun entry => entry.1 = key).map Prod.snd

/-- `collect`: a later entry takes the place of an earlier one with its key. -/
def ofList (entries : List (K × V)) : BTreeMap K V :=
  entries.foldl (fun map entry => map.insert entry.1 entry.2) empty

/-- What `get` finds is an entry. -/
theorem mem_of_get? {map : BTreeMap K V} {key : K} {value : V} (h : map.get? key = some value) :
    (key, value) ∈ map.entries := by
  obtain ⟨entry, hfind, hvalue⟩ := Option.map_eq_some_iff.1 h
  have hkey : entry.1 = key := by simpa using List.find?_some hfind
  have hentry : entry = (key, value) := Prod.ext hkey hvalue
  rw [← hentry]
  exact List.mem_of_find?_eq_some hfind

/-- Searching the list for a key after an insertion: the new entry where the key is its own, and
else what was found before. `get?_insert` is this for maps. -/
theorem find?_insertEntry (key key' : K) (value : V) (entries : List (K × V)) :
    (insertEntry key value entries).find? (fun entry => entry.1 = key') =
      if key' = key then some (key, value) else entries.find? fun entry => entry.1 = key' := by
  induction entries with
  | nil =>
    by_cases hkey : key' = key
    · simp [insertEntry, hkey]
    · simp [insertEntry, hkey, Ne.symm hkey]
  | cons first rest ih =>
    unfold insertEntry
    by_cases hkey : key' = key
    · subst hkey
      split
      · simp
      · next hlt =>
        split
        · simp
        · next hne =>
          -- the key lies further on, where the induction puts it
          rw [List.find?_cons_of_neg (by simpa using Ne.symm hne), ih, if_pos rfl, if_pos rfl]
    · have hkey' : ¬ key = key' := fun heq => hkey heq.symm
      split
      · simp [hkey']
      · split
        · next heq => simp [← heq, hkey']
        · rw [List.find?_cons, List.find?_cons, ih]
          simp [hkey]

/-- What `get` finds after an insertion. -/
theorem get?_insert (map : BTreeMap K V) (key key' : K) (value : V) :
    (map.insert key value).get? key' = if key' = key then some value else map.get? key' := by
  show ((insertEntry key value map.entries).find? fun entry => entry.1 = key').map Prod.snd = _
  rw [find?_insertEntry]
  split
  · rfl
  · rfl

@[simp] theorem get?_empty (key : K) : (empty : BTreeMap K V).get? key = none := rfl

/-- Entries that come in increasing order are each put at the end, so collecting them appends them.
-/
theorem foldl_insert {map : BTreeMap K V} {entries : List (K × V)}
    (h : (map.entries ++ entries).Pairwise (·.1 < ·.1)) :
    (entries.foldl (fun map entry => map.insert entry.1 entry.2) map).entries =
      map.entries ++ entries := by
  induction entries generalizing map with
  | nil => exact (List.append_nil _).symm
  | cons entry rest ih =>
    have hbefore : ∀ entry' ∈ map.entries, entry'.1 < entry.1 := fun entry' hmem =>
      (List.pairwise_append.1 h).2.2 entry' hmem entry List.mem_cons_self
    have hinsert : (map.insert entry.1 entry.2).entries = map.entries ++ [entry] :=
      insertEntry_of_greater hbefore
    rw [List.foldl_cons, ih, hinsert, List.append_assoc]
    · rfl
    · rw [hinsert, List.append_assoc]
      exact h

/-- Collecting the entries of a map gives the map. -/
@[simp] theorem ofList_entries (map : BTreeMap K V) : ofList map.entries = map :=
  BTreeMap.ext ((@foldl_insert K V _ empty map.entries map.sorted).trans (List.nil_append _))

/-- As many entries come in addition as are collected, or fewer. -/
theorem length_foldl_insert_le (entries : List (K × V)) (map : BTreeMap K V) :
    (entries.foldl (fun map entry => map.insert entry.1 entry.2) map).entries.length ≤
      map.entries.length + entries.length := by
  induction entries generalizing map with
  | nil => exact Nat.le_refl _
  | cons entry rest ih =>
    have hrest := ih (map.insert entry.1 entry.2)
    have hinsert : (map.insert entry.1 entry.2).entries.length ≤ map.entries.length + 1 := by
      show (insertEntry entry.1 entry.2 map.entries).length ≤ map.entries.length + 1
      rcases insertEntry_perm_or_length entry.1 entry.2 map.entries with hperm | hlength
      · rw [hperm.length_eq, List.length_cons]
      · omega
    rw [List.foldl_cons, List.length_cons]
    omega

/-- Where all of them come in addition no key occurs twice and each entry is there once. -/
theorem foldl_insert_perm {entries : List (K × V)} {map : BTreeMap K V}
    (h : map.entries.length + entries.length ≤
      (entries.foldl (fun map entry => map.insert entry.1 entry.2) map).entries.length) :
    (entries.foldl (fun map entry => map.insert entry.1 entry.2) map).entries.Perm
      (map.entries ++ entries) := by
  induction entries generalizing map with
  | nil => rw [List.append_nil]; exact List.Perm.refl _
  | cons entry rest ih =>
    rw [List.foldl_cons, List.length_cons] at h
    have hrest := length_foldl_insert_le rest (map.insert entry.1 entry.2)
    rcases insertEntry_perm_or_length entry.1 entry.2 map.entries with hperm | hlength
    · have hinsert : (map.insert entry.1 entry.2).entries.length = map.entries.length + 1 :=
        hperm.length_eq
      -- The first insertion brings an entry, so the others must all bring one too.
      have htail := @ih (map.insert entry.1 entry.2) (by omega)
      exact htail.trans ((hperm.append_right rest).trans List.perm_middle.symm)
    · -- The first insertion replaces one, and then the others cannot make up for it.
      have hinsert : (map.insert entry.1 entry.2).entries.length = map.entries.length := hlength
      omega

/-- A list that collects to as many entries as it has is the entries of its map, in some order. -/
theorem ofList_perm {entries : List (K × V)}
    (h : entries.length ≤ (ofList entries).entries.length) :
    (ofList entries).entries.Perm entries :=
  @foldl_insert_perm _ _ _ entries empty ((Nat.zero_add _).trans_le h)

/-- Where no key occurs twice nothing is replaced. -/
theorem ofList_perm_of_nodup {entries : List (K × V)} (h : (entries.map Prod.fst).Nodup) :
    (ofList entries).entries.Perm entries := by
  have hfold : ∀ (entries : List (K × V)) (map : BTreeMap K V),
      ((map.entries ++ entries).map Prod.fst).Nodup →
        (entries.foldl (fun map entry => map.insert entry.1 entry.2) map).entries.Perm
          (map.entries ++ entries) := by
    intro entries
    induction entries with
    | nil => exact fun map _ => (List.append_nil map.entries).symm ▸ List.Perm.refl _
    | cons entry rest ih =>
      intro map hnodup
      have hmiddle : (entry.1 :: (map.entries ++ rest).map Prod.fst).Nodup :=
        (List.perm_middle.map Prod.fst).nodup_iff.1 hnodup
      have hnew : entry.1 ∉ map.entries.map Prod.fst := fun hmem =>
        (List.nodup_cons.1 hmiddle).1 (by rw [List.map_append]; exact List.mem_append_left _ hmem)
      have hinsert : (map.insert entry.1 entry.2).entries.Perm (entry :: map.entries) :=
        insertEntry_perm hnew
      have happend := hinsert.append_right rest
      exact (ih _ ((happend.map Prod.fst).nodup_iff.2 hmiddle)).trans
        (happend.trans List.perm_middle.symm)
  exact hfold entries empty h

theorem length_ofList_le (entries : List (K × V)) :
    (ofList entries).entries.length ≤ entries.length :=
  (length_foldl_insert_le entries empty).trans (Nat.zero_add _).le

/-- Collecting goes on where it stopped. -/
theorem ofList_append (earlier later : List (K × V)) :
    ofList (earlier ++ later) =
      later.foldl (fun map entry => map.insert entry.1 entry.2) (ofList earlier) :=
  List.foldl_append

/-- A collected map has no other entries than those of the list. -/
theorem mem_of_mem_ofList {entry : K × V} {entries : List (K × V)}
    (h : entry ∈ (ofList entries).entries) : entry ∈ entries := by
  have hfold : ∀ (entries : List (K × V)) (map : BTreeMap K V),
      entry ∈ (entries.foldl (fun map entry => map.insert entry.1 entry.2) map).entries →
        entry ∈ map.entries ∨ entry ∈ entries := by
    intro entries
    induction entries with
    | nil => exact fun map h => Or.inl h
    | cons first rest ih =>
      intro map h
      rcases ih (map.insert first.1 first.2) h with hmem | hmem
      · rcases key_of_mem_insertEntry hmem with rfl | hmem
        · exact Or.inr List.mem_cons_self
        · exact Or.inl hmem
      · exact Or.inr (List.mem_cons_of_mem _ hmem)
  exact (hfold entries empty h).resolve_left List.not_mem_nil

/-! ## The entry of a key -/

theorem keys_nodup (map : BTreeMap K V) : (map.entries.map Prod.fst).Nodup := by
  rw [List.Nodup, List.pairwise_map]
  exact map.sorted.imp ne_of_lt

/-- An entry is what `get` finds. -/
theorem get?_eq_some_iff {map : BTreeMap K V} {key : K} {value : V} :
    map.get? key = some value ↔ (key, value) ∈ map.entries := by
  refine ⟨mem_of_get?, fun hmem => ?_⟩
  have hfind : (map.entries.find? fun entry => entry.1 = key).isSome :=
    List.find?_isSome.2 ⟨_, hmem, decide_eq_true rfl⟩
  obtain ⟨entry, hentry⟩ := Option.isSome_iff_exists.1 hfind
  have hkey : entry.1 = key := by simpa using List.find?_some hentry
  have hsame : entry = (key, value) :=
    List.inj_on_of_nodup_map map.keys_nodup (List.mem_of_find?_eq_some hentry) hmem hkey
  show (map.entries.find? fun entry => entry.1 = key).map Prod.snd = some value
  rw [hentry, hsame]
  rfl

theorem get?_eq_none_iff {map : BTreeMap K V} {key : K} :
    map.get? key = none ↔ key ∉ map.entries.map Prod.fst := by
  constructor
  · intro hnone hmem
    obtain ⟨entry, hentry, rfl⟩ := List.mem_map.1 hmem
    rw [get?_eq_some_iff.2 hentry] at hnone
    exact absurd hnone (Option.some_ne_none _)
  · intro hmem
    refine Option.eq_none_iff_forall_not_mem.2 fun value hvalue => hmem ?_
    exact List.mem_map.2 ⟨_, mem_of_get? hvalue, rfl⟩

/-- What a loop over `iter_mut` makes of the values. -/
def mapValues {W : Type*} (f : K → V → W) (map : BTreeMap K V) : BTreeMap K W :=
  ⟨map.entries.map fun entry => (entry.1, f entry.1 entry.2), List.pairwise_map.2 map.sorted⟩

theorem get?_mapValues {W : Type*} (f : K → V → W) (map : BTreeMap K V) (key : K) :
    (map.mapValues f).get? key = (map.get? key).map (f key) := by
  cases hkey : map.get? key with
  | none =>
    rw [Option.map_none, get?_eq_none_iff]
    show key ∉ (map.entries.map _).map Prod.fst
    rw [List.map_map]
    exact get?_eq_none_iff.1 hkey
  | some value =>
    rw [Option.map_some, get?_eq_some_iff]
    exact List.mem_map.2 ⟨_, mem_of_get? hkey, rfl⟩

end BTreeMap

end Rust

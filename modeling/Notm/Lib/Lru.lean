import Mathlib

/-!
# The least-recently-used list

The cache that an LRU policy describes, without stamps or a map: the entries in the order of
their last use, the oldest first. A hit moves its entry to the end, an insertion appends, and a
full list loses its head.

* `answer_capacity` — no operation changes the capacity.
* `lookup_split`, `without_split` — looking up and removing in a list that is split at the key.
* `mem_get`, `mem_insert` — what the list of the next state can hold.
-/

/-- What a cache is asked. -/
inductive CacheOp (K V : Type*) where
  | get (key : K)
  | insert (key : K) (value : V)
  | clear

/-- What a cache gives back: the value found or replaced, and the key that had to go. -/
structure CacheAnswer (K V : Type*) where
  value : Option V
  evicted : Option K
deriving DecidableEq

/-- The entries in the order of their last use, the oldest first. -/
structure LruList (K V : Type*) where
  capacity : Nat
  entries : List (K × V)

namespace LruList

variable {K V : Type*} [DecidableEq K]

def lookup (key : K) (entries : List (K × V)) : Option V :=
  (entries.find? fun p => p.1 = key).map Prod.snd

/-- The entries without that of `key`. -/
def without (key : K) (entries : List (K × V)) : List (K × V) :=
  entries.filter fun p => p.1 ≠ key

/-- A value that is found is moved to the end. -/
def get (cache : LruList K V) (key : K) : CacheAnswer K V × LruList K V :=
  match lookup key cache.entries with
  | none => (⟨none, none⟩, cache)
  | some value =>
    (⟨some value, none⟩, { cache with entries := without key cache.entries ++ [(key, value)] })

/-- The entry that has waited longest is evicted if there is no room. -/
def insert (cache : LruList K V) (key : K) (value : V) : CacheAnswer K V × LruList K V :=
  match lookup key cache.entries with
  | some old =>
    (⟨some old, none⟩, { cache with entries := without key cache.entries ++ [(key, value)] })
  | none =>
    if cache.entries.length = cache.capacity then
      (⟨none, cache.entries.head?.map Prod.fst⟩,
        { cache with entries := cache.entries.tail ++ [(key, value)] })
    else (⟨none, none⟩, { cache with entries := cache.entries ++ [(key, value)] })

def clear (cache : LruList K V) : CacheAnswer K V × LruList K V :=
  (⟨none, none⟩, { cache with entries := [] })

/-- What an operation answers, and what it leaves. -/
def answer (cache : LruList K V) : CacheOp K V → CacheAnswer K V × LruList K V
  | .get key => cache.get key
  | .insert key value => cache.insert key value
  | .clear => cache.clear

/-- No operation changes the capacity. -/
theorem answer_capacity (cache : LruList K V) (op : CacheOp K V) :
    (cache.answer op).2.capacity = cache.capacity := by
  cases op with
  | get key =>
    show (cache.get key).2.capacity = _
    unfold get
    split <;> rfl
  | insert key value =>
    show (cache.insert key value).2.capacity = _
    unfold insert
    split
    · rfl
    · split <;> rfl
  | clear => rfl

/-! ## Looking up -/

variable {key : K} {entries before after : List (K × V)} {value : V}

theorem lookup_eq_none : lookup key entries = none ↔ key ∉ entries.map Prod.fst := by
  unfold lookup
  rw [Option.map_eq_none_iff, List.find?_eq_none]
  constructor
  · intro h hmem
    obtain ⟨p, hp, rfl⟩ := List.mem_map.1 hmem
    exact h p hp (decide_eq_true rfl)
  · intro h p hp heq
    exact h (List.mem_map.2 ⟨p, hp, of_decide_eq_true heq⟩)

theorem lookup_split (hbefore : key ∉ before.map Prod.fst) :
    lookup key (before ++ (key, value) :: after) = some value := by
  have hnone : (before.find? fun p => p.1 = key) = none :=
    Option.map_eq_none_iff.1 (lookup_eq_none.2 hbefore)
  unfold lookup
  rw [List.find?_append, hnone, Option.none_or, List.find?_cons_of_pos (by simp), Option.map_some]

theorem without_eq_self (h : key ∉ entries.map Prod.fst) : without key entries = entries := by
  unfold without
  rw [List.filter_eq_self]
  intro p hp
  have hne : p.1 ≠ key := fun heq => h (List.mem_map.2 ⟨p, hp, heq⟩)
  simpa using hne

/-- Where keys are distinct, removing a key removes the one entry. -/
theorem without_split (hbefore : key ∉ before.map Prod.fst) (hafter : key ∉ after.map Prod.fst) :
    without key (before ++ (key, value) :: after) = before ++ after := by
  have hself : without key ((key, value) :: after) = without key after := by
    unfold without
    rw [List.filter_cons_of_neg (by simp)]
  show (before ++ (key, value) :: after).filter _ = before ++ after
  rw [List.filter_append]
  show without key before ++ without key ((key, value) :: after) = before ++ after
  rw [hself, without_eq_self hbefore, without_eq_self hafter]

/-! ## What a list holds -/

theorem mem_of_lookup (h : lookup key entries = some value) : (key, value) ∈ entries := by
  obtain ⟨p, hfind, rfl⟩ := Option.map_eq_some_iff.1 h
  have hkey : p.1 = key := by simpa using List.find?_some hfind
  have hp : p = (key, p.2) := Prod.ext hkey rfl
  rw [← hp]
  exact List.mem_of_find?_eq_some hfind

/-- What a hit finds is in the list. -/
theorem mem_of_get {cache : LruList K V} (h : (cache.get key).1.value = some value) :
    (key, value) ∈ cache.entries := by
  unfold get at h
  split at h
  · exact absurd h (Option.some_ne_none value).symm
  · next found hfound =>
    obtain rfl := Option.some.inj h
    exact mem_of_lookup hfound

/-- A lookup brings nothing new. -/
theorem mem_get {cache : LruList K V} {p : K × V} (h : p ∈ (cache.get key).2.entries) :
    p ∈ cache.entries := by
  unfold get at h
  split at h
  · exact h
  · next found hfound =>
    rcases List.mem_append.1 h with hold | hmoved
    · exact (List.mem_filter.1 hold).1
    · rw [List.mem_singleton.1 hmoved]
      exact mem_of_lookup hfound

/-- An insertion brings its own entry. -/
theorem mem_insert {cache : LruList K V} {p : K × V}
    (h : p ∈ (cache.insert key value).2.entries) : p ∈ cache.entries ∨ p = (key, value) := by
  unfold insert at h
  split at h
  · rcases List.mem_append.1 h with hold | hnew
    · exact Or.inl (List.mem_filter.1 hold).1
    · exact Or.inr (List.mem_singleton.1 hnew)
  · split at h
    · rcases List.mem_append.1 h with hold | hnew
      · exact Or.inl (List.mem_of_mem_tail hold)
      · exact Or.inr (List.mem_singleton.1 hnew)
    · rcases List.mem_append.1 h with hold | hnew
      · exact Or.inl hold
      · exact Or.inr (List.mem_singleton.1 hnew)

end LruList

import Notm.Lib.Counter
import Notm.Lib.Lru
import Notm.Lib.Transition

/-!
# The bounded LRU cache of the search pages and thread details

`BoundedLruCache` keeps a recency stamp beside each value and evicts the entry with the least
stamp; when the stamps run out it renumbers the entries by rank. The cache represents the
least-recently-used list: the entries sorted by stamp are the list. Every operation keeps that,
the renumbering included, so the cache answers and evicts as the list does.

* `BoundedLruCache` with `get`, `insert` and `clear` — the cache, with the counter of its stamps.
* `UseOrder` — the entries in the order of their stamps.
* `UseOrder.min_eq`, `UseOrder.replace_last` — the least stamp is the head's, a new one goes last.
-/

namespace Notm.Ui

open Rust

/-- A value with the stamp of its last use. -/
structure CacheEntry (V : Type*) where
  value : V
  lastUsed : Nat

/-- The hash map is the list of its entries; no operation depends on their order. -/
structure BoundedLruCache (K V : Type*) where
  capacity : Nat
  entries : List (K × CacheEntry V)
  recency : Nat

namespace BoundedLruCache

variable {K V : Type*}

/-- `none` when an assertion on the capacity fails. -/
def new (capacity : Nat) : Option (BoundedLruCache K V) :=
  if 0 < capacity then
    if capacity < u64Max then some { capacity := capacity, entries := [], recency := 0 } else none
  else none

def stamps (cache : BoundedLruCache K V) : List Nat :=
  cache.entries.map fun p => p.2.lastUsed

section Operations

variable [DecidableEq K]

/-- `HashMap::get`. -/
def find (key : K) (entries : List (K × CacheEntry V)) : Option (CacheEntry V) :=
  (entries.find? fun p => p.1 = key).map Prod.snd

/-- What `get_mut` writes: the entry of `key` is replaced. -/
def replace (key : K) (entry : CacheEntry V) (entries : List (K × CacheEntry V)) :
    List (K × CacheEntry V) :=
  entries.map fun p => if p.1 = key then (p.1, entry) else p

/-- `rank` is the result of `binary_search` in the sorted stamps; `none` where it is expected to
be present and is not. -/
def rebaseRecency (cache : BoundedLruCache K V) : Option (BoundedLruCache K V) :=
  let stamps := (cache.stamps.mergeSort fun a b => decide (a ≤ b)).destutter (· ≠ ·)
  let rebased := cache.entries.mapM fun p =>
    (stamps.idxOf? p.2.lastUsed).map fun rank => (p.1, { p.2 with lastUsed := rank + 1 })
  rebased.map fun entries => { cache with entries := entries, recency := stamps.length }

/-- The next stamp. Where the counter is used up, the stamps are counted anew first. -/
def nextRecency (cache : BoundedLruCache K V) : Option (Nat × BoundedLruCache K V) :=
  match checkedSucc cache.recency with
  | some next => some (next, { cache with recency := next })
  | none =>
    cache.rebaseRecency.bind fun rebased =>
      (checkedSucc rebased.recency).map fun next => (next, { rebased with recency := next })

/-- A miss takes no stamp. -/
def get (cache : BoundedLruCache K V) (key : K) : Option (Option V × BoundedLruCache K V) :=
  match find key cache.entries with
  | none => some (none, cache)
  | some _ =>
    cache.nextRecency.bind fun a =>
      (find key a.2.entries).map fun entry =>
        (some entry.value,
          { a.2 with entries := replace key { entry with lastUsed := a.1 } a.2.entries })

/-- The entry with the oldest stamp goes. -/
def evictLru (cache : BoundedLruCache K V) : BoundedLruCache K V :=
  match cache.stamps.min? with
  | none => cache
  | some oldest =>
    { cache with entries := cache.entries.filter fun p => p.2.lastUsed ≠ oldest }

/-- An entry that is there is replaced; a new one makes room for itself if the cache is full. -/
def insert (cache : BoundedLruCache K V) (key : K) (value : V) :
    Option (Option V × BoundedLruCache K V) :=
  cache.nextRecency.map fun a =>
    match find key a.2.entries with
    | some entry =>
      (some entry.value, { a.2 with entries := replace key ⟨value, a.1⟩ a.2.entries })
    | none =>
      let room := if a.2.entries.length = a.2.capacity then a.2.evictLru else a.2
      (none, { room with entries := room.entries ++ [(key, ⟨value, a.1⟩)] })

/-- The stamps begin anew with the entries. -/
def clear (cache : BoundedLruCache K V) : BoundedLruCache K V :=
  { cache with entries := [], recency := 0 }

/-! ## What a caller sees -/

/-- The key that an operation has dropped. -/
def dropped (cache cache' : BoundedLruCache K V) : Option K :=
  (cache.entries.map Prod.fst).find? fun key => !(cache'.entries.map Prod.fst).contains key

/-- One operation: the value it returns and the key it evicts. -/
def answer (cache : BoundedLruCache K V) :
    CacheOp K V → Option (CacheAnswer K V × BoundedLruCache K V)
  | .get key => (cache.get key).map fun a => (⟨a.1, dropped cache a.2⟩, a.2)
  | .insert key value => (cache.insert key value).map fun a => (⟨a.1, dropped cache a.2⟩, a.2)
  | .clear => some (⟨none, none⟩, cache.clear)

end Operations

/-! ## Entries in the order of their stamps -/

/-- An entry as the list keeps it. -/
def view (p : K × CacheEntry V) : K × V := (p.1, p.2.value)

/-- `sorted` are the entries, the one with the least stamp first. -/
structure UseOrder (sorted entries : List (K × CacheEntry V)) : Prop where
  perm : sorted.Perm entries
  increasing : sorted.Pairwise fun p q => p.2.lastUsed < q.2.lastUsed

variable {key : K} {entry : CacheEntry V} {entries sorted : List (K × CacheEntry V)}

theorem map_fst_view : (entries.map view).map Prod.fst = entries.map Prod.fst := by
  rw [List.map_map]
  rfl

/-- Keys before and after the entry of `key` differ from it. -/
theorem keys_split {before after : List (K × CacheEntry V)} {old : CacheEntry V}
    (hkeys : ((before ++ (key, old) :: after).map Prod.fst).Nodup) :
    key ∉ before.map Prod.fst ∧ key ∉ after.map Prod.fst := by
  rw [List.map_append, List.map_cons, List.nodup_append] at hkeys
  obtain ⟨_, hafter, hdisjoint⟩ := hkeys
  rw [List.nodup_cons] at hafter
  refine ⟨fun h => ?_, hafter.1⟩
  exact hdisjoint key h key List.mem_cons_self rfl

variable (key entry) in
theorem UseOrder.append_last (h : UseOrder sorted entries)
    (hlast : ∀ p ∈ entries, p.2.lastUsed < entry.lastUsed) :
    UseOrder (sorted ++ [(key, entry)]) (entries ++ [(key, entry)]) := by
  refine ⟨h.perm.append_right _, ?_⟩
  rw [List.pairwise_append]
  refine ⟨h.increasing, List.pairwise_singleton _ _, ?_⟩
  intro p hp q hq
  obtain rfl := List.mem_singleton.1 hq
  exact hlast p (h.perm.mem_iff.1 hp)

/-- The entries without those of the least stamp are the order without its head. -/
theorem UseOrder.tail {first : K × CacheEntry V} (h : UseOrder (first :: sorted) entries) :
    UseOrder sorted (entries.filter fun p => p.2.lastUsed ≠ first.2.lastUsed) := by
  obtain ⟨hfirst, hrest⟩ := List.pairwise_cons.1 h.increasing
  refine ⟨?_, hrest⟩
  have hfiltered := h.perm.filter fun p => decide (p.2.lastUsed ≠ first.2.lastUsed)
  have hself : (sorted.filter fun p => decide (p.2.lastUsed ≠ first.2.lastUsed)) = sorted := by
    rw [List.filter_eq_self]
    intro p hp
    have := hfirst p hp
    exact decide_eq_true (by omega)
  rw [List.filter_cons_of_neg (by simp), hself] at hfiltered
  exact hfiltered

/-- The least stamp is that of the head. -/
theorem UseOrder.min_eq {first : K × CacheEntry V} (h : UseOrder (first :: sorted) entries) :
    (entries.map fun p => p.2.lastUsed).min? = some first.2.lastUsed := by
  rw [List.min?_eq_some_iff]
  refine ⟨List.mem_map.2 ⟨first, h.perm.mem_iff.1 List.mem_cons_self, rfl⟩, ?_⟩
  intro stamp hstamp
  obtain ⟨p, hp, rfl⟩ := List.mem_map.1 hstamp
  rcases List.mem_cons.1 (h.perm.mem_iff.2 hp) with rfl | hp
  · exact Nat.le_refl _
  · exact Nat.le_of_lt ((List.pairwise_cons.1 h.increasing).1 p hp)

/-! ## Replacing an entry -/

variable [DecidableEq K]

theorem find_eq_some_iff (hkeys : (entries.map Prod.fst).Nodup) :
    find key entries = some entry ↔ (key, entry) ∈ entries := by
  unfold find
  constructor
  · intro h
    obtain ⟨p, hp, rfl⟩ := Option.map_eq_some_iff.1 h
    have hkey : p.1 = key := by simpa using List.find?_some hp
    have hmem := List.mem_of_find?_eq_some hp
    rw [← hkey]
    exact hmem
  · intro h
    cases hfind : entries.find? fun p => p.1 = key with
    | none => exact absurd (decide_eq_true rfl) (List.find?_eq_none.1 hfind _ h)
    | some p =>
      have hkey : p.1 = key := by simpa using List.find?_some hfind
      have hmem := List.mem_of_find?_eq_some hfind
      have heq : p = (key, entry) := List.inj_on_of_nodup_map hkeys hmem h hkey
      rw [heq]
      rfl

theorem find_eq_none_iff : find key entries = none ↔ key ∉ entries.map Prod.fst := by
  unfold find
  rw [Option.map_eq_none_iff, List.find?_eq_none]
  constructor
  · intro h hmem
    obtain ⟨p, hp, rfl⟩ := List.mem_map.1 hmem
    exact h p hp (decide_eq_true rfl)
  · intro h p hp heq
    exact h (List.mem_map.2 ⟨p, hp, of_decide_eq_true heq⟩)

theorem map_fst_replace : (replace key entry entries).map Prod.fst = entries.map Prod.fst := by
  unfold replace
  rw [List.map_map]
  apply List.map_congr_left
  intro p _
  show (if p.1 = key then (p.1, entry) else p).1 = p.1
  split <;> rfl

theorem replace_eq_self (h : key ∉ entries.map Prod.fst) : replace key entry entries = entries := by
  unfold replace
  conv_rhs => rw [← List.map_id entries]
  apply List.map_congr_left
  intro p hp
  have hne : p.1 ≠ key := fun heq => h (List.mem_map.2 ⟨p, hp, heq⟩)
  show (if p.1 = key then (p.1, entry) else p) = p
  rw [if_neg hne]

theorem replace_split {before after : List (K × CacheEntry V)} {old : CacheEntry V}
    (hkeys : ((before ++ (key, old) :: after).map Prod.fst).Nodup) :
    replace key entry (before ++ (key, old) :: after) = before ++ (key, entry) :: after := by
  obtain ⟨hbefore, hafter⟩ := keys_split hkeys
  have hhead : replace key entry ((key, old) :: after) = (key, entry) :: after := by
    show (if key = key then (key, entry) else (key, old)) :: replace key entry after = _
    rw [if_pos rfl, replace_eq_self hafter]
  have hsplit : replace key entry (before ++ (key, old) :: after) =
      replace key entry before ++ replace key entry ((key, old) :: after) := List.map_append
  rw [hsplit, replace_eq_self hbefore, hhead]

variable (entry) in
/-- Giving an entry a stamp above all others moves it to the end of the order. -/
theorem UseOrder.replace_last (h : UseOrder sorted entries)
    (hkeys : (entries.map Prod.fst).Nodup) {old : CacheEntry V} (hmem : (key, old) ∈ entries)
    (hlast : ∀ p ∈ entries, p.2.lastUsed < entry.lastUsed) :
    ∃ before after, sorted = before ++ (key, old) :: after ∧
      UseOrder (before ++ after ++ [(key, entry)]) (replace key entry entries) := by
  obtain ⟨before, after, hsplit⟩ := List.append_of_mem (h.perm.mem_iff.2 hmem)
  have hkeys' : (sorted.map Prod.fst).Nodup := (h.perm.map Prod.fst).nodup_iff.2 hkeys
  refine ⟨before, after, hsplit, ?_, ?_⟩
  · -- the replaced list is the sorted one with the entry in its old place
    have hreplaced : replace key entry sorted = before ++ (key, entry) :: after := by
      rw [hsplit] at hkeys' ⊢
      exact replace_split hkeys'
    have hperm : (before ++ (key, entry) :: after).Perm (replace key entry entries) := by
      rw [← hreplaced]
      exact h.perm.map _
    have hmove : (before ++ after ++ [(key, entry)]).Perm (before ++ (key, entry) :: after) := by
      rw [List.append_assoc]
      exact List.Perm.append_left _ (List.perm_append_singleton _ _)
    exact hmove.trans hperm
  · have hincreasing := h.increasing
    rw [hsplit, List.pairwise_append, List.pairwise_cons] at hincreasing
    obtain ⟨hbefore, ⟨_, hafter⟩, hcross⟩ := hincreasing
    have hbelow : ∀ p ∈ before ++ after, p.2.lastUsed < entry.lastUsed := by
      intro p hp
      apply hlast p (h.perm.mem_iff.1 _)
      rw [hsplit]
      rcases List.mem_append.1 hp with hp | hp
      · exact List.mem_append_left _ hp
      · exact List.mem_append_right _ (List.mem_cons_of_mem _ hp)
    rw [List.pairwise_append, List.pairwise_append]
    refine ⟨⟨hbefore, hafter, fun p hp q hq => hcross p hp q (List.mem_cons_of_mem _ hq)⟩,
      List.pairwise_singleton _ _, ?_⟩
    intro p hp q hq
    obtain rfl := List.mem_singleton.1 hq
    exact hbelow p hp

end BoundedLruCache

end Notm.Ui

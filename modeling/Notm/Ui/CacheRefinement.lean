import Notm.Ui.Cache

/-!
# The bounded cache answers as the least-recently-used list

`Represents cache list` is the invariant of every run: the entries sorted by stamp are the list,
no stamp exceeds the counter, the capacity leaves the counter room. Taking a stamp keeps it, also
when the counter is at its end and the entries are renumbered by rank; each operation then keeps
it and answers as the list does.

* `Represents` — a cache and a list with the same entries in the same order.
* `Represents.nextRecency` — a stamp is always to be had, at the end of the counter by renumbering.
* `Represents.answer` — every operation answers as on the list and keeps representing it.
* `answers_eq_lruList` — any sequence of operations, by simulation.
-/

namespace Notm.Ui.BoundedLruCache

open Rust

variable {K V : Type*} {cache : BoundedLruCache K V} {list : LruList K V}
  {sorted entries : List (K × CacheEntry V)}

structure Represents (cache : BoundedLruCache K V) (list : LruList K V) : Prop where
  capacity_eq : list.capacity = cache.capacity
  capacity_pos : 0 < cache.capacity
  room : cache.capacity < u64Max
  keys_nodup : (cache.entries.map Prod.fst).Nodup
  size_le : cache.entries.length ≤ cache.capacity
  stamps_le : ∀ p ∈ cache.entries, p.2.lastUsed ≤ cache.recency
  inUseOrder : ∃ sorted, UseOrder sorted cache.entries ∧ list.entries = sorted.map view

/-- The stamps are pairwise distinct. -/
theorem Represents.stamps_nodup (h : Represents cache list) : cache.stamps.Nodup := by
  obtain ⟨sorted, horder, _⟩ := h.inUseOrder
  have hsorted : (sorted.map fun p => p.2.lastUsed).Nodup := by
    rw [List.Nodup, List.pairwise_map]
    exact horder.increasing.imp fun hlt => Nat.ne_of_lt hlt
  exact (horder.perm.map fun p => p.2.lastUsed).nodup_iff.1 hsorted

theorem Represents.keys_eq (h : Represents cache list) :
    (list.entries.map Prod.fst).Perm (cache.entries.map Prod.fst) := by
  obtain ⟨sorted, horder, hview⟩ := h.inUseOrder
  rw [hview, map_fst_view]
  exact horder.perm.map _

theorem Represents.length_eq (h : Represents cache list) :
    list.entries.length = cache.entries.length := by
  have hlength := h.keys_eq.length_eq
  rwa [List.length_map, List.length_map] at hlength

/-! ## Renumbering -/

/-- The entry with its stamp replaced by the rank of the stamp. -/
def ranked (stamps : List Nat) (p : K × CacheEntry V) : K × CacheEntry V :=
  (p.1, { p.2 with lastUsed := stamps.idxOf p.2.lastUsed + 1 })

/-- Sorting and deduplicating the stamps gives the stamps of the sorted entries. -/
theorem sorted_stamps (h : UseOrder sorted entries) :
    ((entries.map fun p => p.2.lastUsed).mergeSort fun a b => decide (a ≤ b)).destutter (· ≠ ·) =
      sorted.map fun p => p.2.lastUsed := by
  have hincreasing : (sorted.map fun p => p.2.lastUsed).Pairwise (· < ·) := by
    rw [List.pairwise_map]
    exact h.increasing
  have hmerged : ((entries.map fun p => p.2.lastUsed).mergeSort fun a b => decide (a ≤ b)) =
      sorted.map fun p => p.2.lastUsed := by
    have hperm := (List.mergeSort_perm (entries.map fun p => p.2.lastUsed)
      (fun a b => decide (a ≤ b))).trans (h.perm.map fun p => p.2.lastUsed).symm
    have hle : ((entries.map fun p => p.2.lastUsed).mergeSort
        fun a b => decide (a ≤ b)).Pairwise (· ≤ ·) := by
      have hpairwise : ((entries.map fun p => p.2.lastUsed).mergeSort
          fun a b => decide (a ≤ b)).Pairwise fun a b => decide (a ≤ b) = true :=
        List.pairwise_mergeSort
        (fun a b c hab hbc => by simp only [decide_eq_true_eq] at *; omega)
        (fun a b => by simp only [Bool.or_eq_true, decide_eq_true_eq]; omega)
        (entries.map fun p => p.2.lastUsed)
      exact hpairwise.imp of_decide_eq_true
    exact hperm.eq_of_pairwise (fun a b _ _ hab hba => Nat.le_antisymm hab hba) hle
      (hincreasing.imp Nat.le_of_lt)
  rw [hmerged, List.destutter_eq_self_iff]
  exact (hincreasing.imp Nat.ne_of_lt).isChain

/-- The ranks of the sorted stamps increase and end at the number of stamps. -/
theorem ranked_useOrder (h : UseOrder sorted entries) :
    UseOrder (sorted.map (ranked (sorted.map fun p => p.2.lastUsed)))
      (entries.map (ranked (sorted.map fun p => p.2.lastUsed))) := by
  refine ⟨h.perm.map _, ?_⟩
  have hincreasing : (sorted.map fun p => p.2.lastUsed).Pairwise (· < ·) := by
    rw [List.pairwise_map]
    exact h.increasing
  have hnodup : (sorted.map fun p => p.2.lastUsed).Nodup := hincreasing.imp Nat.ne_of_lt
  rw [List.pairwise_map, List.pairwise_iff_getElem]
  intro i j hi hj hij
  -- the rank of the stamp at an index is that index
  have hrank : ∀ k (hk : k < sorted.length),
      (sorted.map fun p => p.2.lastUsed).idxOf sorted[k].2.lastUsed = k := by
    intro k hk
    have hlength : k < (sorted.map fun p => p.2.lastUsed).length := by
      rw [List.length_map]
      exact hk
    have hstamp : sorted[k].2.lastUsed = (sorted.map fun p => p.2.lastUsed)[k] := by simp
    rw [hstamp, hnodup.idxOf_getElem]
  show (sorted.map fun p => p.2.lastUsed).idxOf sorted[i].2.lastUsed + 1 <
    (sorted.map fun p => p.2.lastUsed).idxOf sorted[j].2.lastUsed + 1
  rw [hrank i hi, hrank j hj]
  omega

theorem map_view_ranked (stamps : List Nat) :
    (sorted.map (ranked stamps)).map view = sorted.map view := by
  rw [List.map_map]
  rfl

theorem rebaseRecency_eq (h : UseOrder sorted cache.entries) :
    cache.rebaseRecency = some { cache with
      entries := cache.entries.map (ranked (sorted.map fun p => p.2.lastUsed))
      recency := sorted.length } := by
  unfold rebaseRecency stamps
  rw [sorted_stamps h]
  have hranks : ∀ entries' : List (K × CacheEntry V), (∀ p ∈ entries', p ∈ sorted) →
      (entries'.mapM fun p => ((sorted.map fun p => p.2.lastUsed).idxOf? p.2.lastUsed).map
        fun rank => (p.1, { p.2 with lastUsed := rank + 1 })) =
      some (entries'.map (ranked (sorted.map fun p => p.2.lastUsed))) := by
    intro entries' hmem
    induction entries' with
    | nil => rfl
    | cons p rest ih =>
      have hp : p.2.lastUsed ∈ sorted.map fun p => p.2.lastUsed :=
        List.mem_map.2 ⟨p, hmem p List.mem_cons_self, rfl⟩
      have hrank : (sorted.map fun p => p.2.lastUsed).idxOf? p.2.lastUsed =
          some ((sorted.map fun p => p.2.lastUsed).idxOf p.2.lastUsed) := by
        cases hfind : (sorted.map fun p => p.2.lastUsed).idxOf? p.2.lastUsed with
        | none => exact absurd hp (List.idxOf?_eq_none_iff.1 hfind)
        | some rank => rw [List.idxOf_eq_getD_idxOf?, hfind, Option.getD_some]
      rw [List.mapM_cons, hrank, ih fun q hq => hmem q (List.mem_cons_of_mem _ hq)]
      rfl
  simp only [hranks cache.entries fun p hp => h.perm.mem_iff.2 hp, Option.map_some,
    List.length_map]

/-! ## Taking a stamp -/

/-- Another counter and other stamps in the same order represent the same list. -/
theorem Represents.restamp (h : Represents cache list) {entries' sorted' : List (K × CacheEntry V)}
    {recency' : Nat} (horder : UseOrder sorted' entries')
    (hview : list.entries = sorted'.map view)
    (hstamps : ∀ p ∈ entries', p.2.lastUsed ≤ recency') :
    Represents { cache with entries := entries', recency := recency' } list := by
  have hkeys : (list.entries.map Prod.fst).Perm (entries'.map Prod.fst) := by
    rw [hview, map_fst_view]
    exact horder.perm.map _
  have hlength : entries'.length = cache.entries.length := by
    rw [← h.length_eq, hview, List.length_map, horder.perm.length_eq]
  refine ⟨h.capacity_eq, h.capacity_pos, h.room, ?_, ?_, hstamps, sorted', horder, hview⟩
  · exact hkeys.nodup_iff.1 (h.keys_eq.nodup_iff.2 h.keys_nodup)
  · show entries'.length ≤ cache.capacity
    rw [hlength]
    exact h.size_le

/-- A stamp is always to be had; it exceeds all others, and the list stays the same. -/
theorem Represents.nextRecency (h : Represents cache list) :
    ∃ stamp cache', cache.nextRecency = some (stamp, cache') ∧ Represents cache' list ∧
      cache'.capacity = cache.capacity ∧ cache'.recency = stamp ∧
      ∀ p ∈ cache'.entries, p.2.lastUsed < stamp := by
  obtain ⟨sorted, horder, hview⟩ := h.inUseOrder
  cases hnext : checkedSucc cache.recency with
  | some next =>
    obtain ⟨-, rfl⟩ := checkedSucc_eq_some hnext
    refine ⟨cache.recency + 1, { cache with recency := cache.recency + 1 }, ?_, ?_, rfl, rfl, ?_⟩
    · unfold BoundedLruCache.nextRecency
      rw [hnext]
    · apply h.restamp horder hview
      intro p hp
      exact Nat.le_succ_of_le (h.stamps_le p hp)
    · intro p hp
      exact Nat.lt_succ_of_le (h.stamps_le p hp)
  | none =>
    -- the ranks end at the number of entries, which the capacity keeps below the end
    have hlength : sorted.length = cache.entries.length := horder.perm.length_eq
    have hroom : sorted.length < u64Max := by
      have := h.size_le
      have := h.room
      omega
    have hranks : ∀ p ∈ cache.entries.map (ranked (sorted.map fun p => p.2.lastUsed)),
        p.2.lastUsed < sorted.length + 1 := by
      intro p hp
      obtain ⟨q, hq, rfl⟩ := List.mem_map.1 hp
      have hmem : q.2.lastUsed ∈ sorted.map fun p => p.2.lastUsed :=
        List.mem_map.2 ⟨q, horder.perm.mem_iff.2 hq, rfl⟩
      have hidx := List.idxOf_lt_length_of_mem hmem
      rw [List.length_map] at hidx
      show (sorted.map fun p => p.2.lastUsed).idxOf q.2.lastUsed + 1 < sorted.length + 1
      omega
    refine ⟨sorted.length + 1, { cache with
      entries := cache.entries.map (ranked (sorted.map fun p => p.2.lastUsed))
      recency := sorted.length + 1 }, ?_, ?_, rfl, rfl, hranks⟩
    · unfold BoundedLruCache.nextRecency
      rw [hnext, rebaseRecency_eq horder]
      simp only [Option.bind_some, checkedSucc_of_lt hroom, Option.map_some]
    · apply h.restamp (ranked_useOrder horder)
      · rw [map_view_ranked, hview]
      · intro p hp
        exact Nat.le_of_lt (hranks p hp)

/-! ## Evicting -/

/-- A full cache loses the entry with the least stamp: the head of the list. -/
theorem Represents.evictLru (h : Represents cache list)
    (hfull : cache.entries.length = cache.capacity) :
    ∃ first rest, list.entries = first :: rest ∧
      Represents cache.evictLru { list with entries := rest } ∧
      cache.evictLru.capacity = cache.capacity ∧ cache.evictLru.recency = cache.recency ∧
      cache.evictLru.entries.length < cache.capacity ∧
      cache.evictLru.entries ⊆ cache.entries := by
  obtain ⟨sorted, horder, hview⟩ := h.inUseOrder
  cases sorted with
  | nil =>
    have hlength := horder.perm.length_eq
    have hpos := h.capacity_pos
    simp only [List.length_nil] at hlength
    omega
  | cons first rest =>
    have htail := horder.tail
    have hevicted : cache.evictLru = { cache with
        entries := cache.entries.filter fun p => p.2.lastUsed ≠ first.2.lastUsed } := by
      unfold BoundedLruCache.evictLru stamps
      rw [horder.min_eq]
    have hlength : (cache.entries.filter fun p => p.2.lastUsed ≠ first.2.lastUsed).length + 1 =
        cache.entries.length := by
      rw [← htail.perm.length_eq, ← horder.perm.length_eq]
      rfl
    have hkeys : ((cache.entries.filter fun p => p.2.lastUsed ≠ first.2.lastUsed).map
        Prod.fst).Nodup := h.keys_nodup.sublist (List.filter_sublist.map _)
    refine ⟨view first, rest.map view, hview, ?_, ?_⟩
    · rw [hevicted]
      refine ⟨h.capacity_eq, h.capacity_pos, h.room, hkeys, ?_, ?_, rest, htail, rfl⟩
      · have := h.size_le
        show (cache.entries.filter _).length ≤ cache.capacity
        omega
      · intro p hp
        exact h.stamps_le p (List.mem_of_mem_filter hp)
    · rw [hevicted]
      refine ⟨rfl, rfl, ?_, fun p hp => List.mem_of_mem_filter hp⟩
      show (cache.entries.filter _).length < cache.capacity
      omega

/-! ## A new cache -/

theorem represents_new {capacity : Nat} (hnew : new capacity = some cache) :
    Represents cache ⟨capacity, []⟩ := by
  unfold new at hnew
  split at hnew
  · split at hnew
    · obtain rfl := Option.some.inj hnew
      refine ⟨rfl, ‹_›, ‹_›, List.nodup_nil, Nat.zero_le _, ?_, [],
        ⟨List.Perm.nil, List.Pairwise.nil⟩, rfl⟩
      intro p hp
      exact absurd hp List.not_mem_nil
    · exact absurd hnew (Option.some_ne_none _).symm
  · exact absurd hnew (Option.some_ne_none _).symm

/-! ## Looking up -/

section Operations

variable [DecidableEq K] {key : K} {entry : CacheEntry V} {value : V} {stamp : Nat}

variable (key) in
/-- The list finds the values that the map finds. -/
theorem Represents.lookup_eq (h : Represents cache list) :
    LruList.lookup key list.entries = (find key cache.entries).map CacheEntry.value := by
  cases hfind : find key cache.entries with
  | none =>
    rw [Option.map_none, LruList.lookup_eq_none, h.keys_eq.mem_iff]
    exact find_eq_none_iff.1 hfind
  | some entry =>
    obtain ⟨sorted, horder, hview⟩ := h.inUseOrder
    have hmem := horder.perm.mem_iff.2 ((find_eq_some_iff h.keys_nodup).1 hfind)
    obtain ⟨before, after, hsplit⟩ := List.append_of_mem hmem
    have hkeys : ((before ++ (key, entry) :: after).map Prod.fst).Nodup := by
      rw [← hsplit]
      exact (horder.perm.map Prod.fst).nodup_iff.2 h.keys_nodup
    have hbefore := (keys_split hkeys).1
    rw [← map_fst_view] at hbefore
    rw [hview, hsplit, List.map_append, List.map_cons]
    exact LruList.lookup_split hbefore

/-- A new stamp and value move the entry of a key to the end. -/
theorem Represents.replace (h : Represents cache list)
    (hfind : find key cache.entries = some entry)
    (hlast : ∀ p ∈ cache.entries, p.2.lastUsed < cache.recency) :
    Represents
      { cache with entries := BoundedLruCache.replace key ⟨value, cache.recency⟩ cache.entries }
      { list with entries := LruList.without key list.entries ++ [(key, value)] } := by
  obtain ⟨sorted, horder, hview⟩ := h.inUseOrder
  have hmem := (find_eq_some_iff h.keys_nodup).1 hfind
  obtain ⟨before, after, hsplit, horder'⟩ :=
    horder.replace_last ⟨value, cache.recency⟩ h.keys_nodup hmem hlast
  have hkeys : ((before ++ (key, entry) :: after).map Prod.fst).Nodup := by
    rw [← hsplit]
    exact (horder.perm.map Prod.fst).nodup_iff.2 h.keys_nodup
  obtain ⟨hbefore, hafter⟩ := keys_split hkeys
  rw [← map_fst_view] at hbefore hafter
  have hstamps : ∀ p ∈ BoundedLruCache.replace key ⟨value, cache.recency⟩ cache.entries,
      p.2.lastUsed ≤ cache.recency := by
    intro p hp
    obtain ⟨q, hq, rfl⟩ := List.mem_map.1 hp
    show (if q.1 = key then (q.1, ⟨value, cache.recency⟩) else q).2.lastUsed ≤ cache.recency
    split
    · exact Nat.le_refl _
    · exact h.stamps_le q hq
  refine ⟨h.capacity_eq, h.capacity_pos, h.room, ?_, ?_, hstamps, _, horder', ?_⟩
  · show ((BoundedLruCache.replace key _ cache.entries).map Prod.fst).Nodup
    rw [map_fst_replace]
    exact h.keys_nodup
  · show (BoundedLruCache.replace key _ cache.entries).length ≤ cache.capacity
    unfold BoundedLruCache.replace
    rw [List.length_map]
    exact h.size_le
  · have hentries : list.entries = before.map view ++ (key, entry.value) :: after.map view := by
      rw [hview, hsplit, List.map_append, List.map_cons]
      rfl
    show LruList.without key list.entries ++ [(key, value)] = _
    rw [hentries, LruList.without_split hbefore hafter, List.map_append, List.map_append]
    rfl

variable (value) in
/-- A key that is not there joins at the end while there is room. -/
theorem Represents.append (h : Represents cache list) (hfind : find key cache.entries = none)
    (hlast : ∀ p ∈ cache.entries, p.2.lastUsed < cache.recency)
    (hroom : cache.entries.length < cache.capacity) :
    Represents { cache with entries := cache.entries ++ [(key, ⟨value, cache.recency⟩)] }
      { list with entries := list.entries ++ [(key, value)] } := by
  obtain ⟨sorted, horder, hview⟩ := h.inUseOrder
  have hstamps : ∀ p ∈ cache.entries ++ [(key, ⟨value, cache.recency⟩)],
      p.2.lastUsed ≤ cache.recency := by
    intro p hp
    rcases List.mem_append.1 hp with hp | hp
    · exact h.stamps_le p hp
    · obtain rfl := List.mem_singleton.1 hp
      exact Nat.le_refl _
  refine ⟨h.capacity_eq, h.capacity_pos, h.room, ?_, ?_, hstamps, _,
    horder.append_last key ⟨value, cache.recency⟩ hlast, ?_⟩
  · show ((cache.entries ++ [(key, _)]).map Prod.fst).Nodup
    rw [List.map_append, List.nodup_append]
    refine ⟨h.keys_nodup, List.nodup_singleton _, ?_⟩
    rintro k hk k' hk' rfl
    obtain rfl := List.mem_singleton.1 hk'
    exact find_eq_none_iff.1 hfind hk
  · show (cache.entries ++ [(key, _)]).length ≤ cache.capacity
    rw [List.length_append, List.length_singleton]
    omega
  · show list.entries ++ [(key, value)] = _
    rw [hview, List.map_append]
    rfl

/-! ## One operation -/

theorem dropped_eq_none {cache' : BoundedLruCache K V}
    (h : ∀ key ∈ cache.entries.map Prod.fst, key ∈ cache'.entries.map Prod.fst) :
    dropped cache cache' = none := by
  unfold dropped
  rw [List.find?_eq_none]
  intro key hkey
  simp [h key hkey]

theorem dropped_eq_some {cache' : BoundedLruCache K V} (hmem : key ∈ cache.entries.map Prod.fst)
    (hdropped : key ∉ cache'.entries.map Prod.fst)
    (hothers : ∀ other ∈ cache.entries.map Prod.fst, other ≠ key →
      other ∈ cache'.entries.map Prod.fst) : dropped cache cache' = some key := by
  unfold dropped
  cases hfind : (cache.entries.map Prod.fst).find?
      fun key => !(cache'.entries.map Prod.fst).contains key with
  | none =>
    have hkept := List.find?_eq_none.1 hfind key hmem
    simp [hdropped] at hkept
  | some other =>
    have hgone := List.find?_some hfind
    have hother := List.mem_of_find?_eq_some hfind
    by_contra hne
    have hkept := hothers other hother fun heq => hne (by rw [heq])
    simp [hkept] at hgone

/-- `get` never fails and answers as the list does. -/
theorem Represents.answer_get (h : Represents cache list) (key : K) :
    ∃ cache', answer cache (.get key) = some ((list.get key).1, cache') ∧
      Represents cache' (list.get key).2 := by
  obtain ⟨stamp, fresh, hnext, hfresh, -, rfl, hlast⟩ := h.nextRecency
  have hlookup := h.lookup_eq key
  cases hfind : find key cache.entries with
  | none =>
    rw [hfind, Option.map_none] at hlookup
    have hlist : list.get key = (⟨none, none⟩, list) := by
      unfold LruList.get
      rw [hlookup]
    have hget : cache.get key = some (none, cache) := by
      unfold BoundedLruCache.get
      rw [hfind]
    refine ⟨cache, ?_, by rw [hlist]; exact h⟩
    show (cache.get key).map _ = _
    rw [hget, Option.map_some, dropped_eq_none fun key hkey => hkey, hlist]
  | some old =>
    rw [hfind, Option.map_some] at hlookup
    -- the second lookup, behind the new stamp, finds the entry again
    obtain ⟨entry, hagain, hvalue⟩ :=
      Option.map_eq_some_iff.1 ((hfresh.lookup_eq key).symm.trans hlookup)
    have hlist : list.get key = (⟨some entry.value, none⟩,
        { list with entries := LruList.without key list.entries ++ [(key, entry.value)] }) := by
      unfold LruList.get
      rw [hlookup, hvalue]
    have hget : cache.get key = some (some entry.value, { fresh with
        entries := BoundedLruCache.replace key ⟨entry.value, fresh.recency⟩ fresh.entries }) := by
      unfold BoundedLruCache.get
      rw [hfind]
      show cache.nextRecency.bind _ = _
      rw [hnext, Option.bind_some, hagain]
      rfl
    refine ⟨_, ?_, by rw [hlist]; exact hfresh.replace hagain hlast⟩
    show (cache.get key).map _ = _
    rw [hget, Option.map_some, dropped_eq_none, hlist]
    intro key hkey
    show key ∈ (BoundedLruCache.replace _ _ fresh.entries).map Prod.fst
    rw [map_fst_replace, ← hfresh.keys_eq.mem_iff, h.keys_eq.mem_iff]
    exact hkey

/-- The cache from which a full list has lost its head drops that key, whatever new key joins. -/
theorem Represents.dropped_head {evicted : BoundedLruCache K V} {first : K × V}
    {rest : List (K × V)} (h : Represents cache list) (hentries : list.entries = first :: rest)
    (hevicted : Represents evicted { list with entries := rest })
    (hnew : key ∉ cache.entries.map Prod.fst) :
    dropped cache { evicted with entries := evicted.entries ++ [(key, entry)] } = some first.1 := by
  have hnodup : (list.entries.map Prod.fst).Nodup := h.keys_eq.nodup_iff.2 h.keys_nodup
  rw [hentries, List.map_cons, List.nodup_cons] at hnodup
  have hrest : ∀ other, other ∈ evicted.entries.map Prod.fst ↔ other ∈ rest.map Prod.fst :=
    fun other => (hevicted.keys_eq.mem_iff (a := other)).symm
  have hall : ∀ other, other ∈ cache.entries.map Prod.fst ↔
      other = first.1 ∨ other ∈ rest.map Prod.fst := by
    intro other
    rw [← h.keys_eq.mem_iff, hentries, List.map_cons, List.mem_cons]
  apply dropped_eq_some ((hall first.1).2 (Or.inl rfl))
  · show first.1 ∉ (evicted.entries ++ [(key, entry)]).map Prod.fst
    rw [List.map_append, List.mem_append, hrest]
    rintro (hmem | hmem)
    · exact hnodup.1 hmem
    · -- the new key was not among the keys, the head's was
      have hkey : first.1 = key := List.mem_singleton.1 hmem
      have hfirst := (hall first.1).2 (Or.inl rfl)
      rw [hkey] at hfirst
      exact hnew hfirst
  · intro other hother hne
    show other ∈ (evicted.entries ++ [(key, entry)]).map Prod.fst
    rw [List.map_append, List.mem_append, hrest]
    exact Or.inl (((hall other).1 hother).resolve_left hne)

/-- A new key in a full cache: the head of the list goes. -/
theorem Represents.answer_insert_full {fresh : BoundedLruCache K V} (h : Represents cache list)
    (hnext : cache.nextRecency = some (fresh.recency, fresh)) (hfresh : Represents fresh list)
    (hlast : ∀ p ∈ fresh.entries, p.2.lastUsed < fresh.recency)
    (hfind : find key fresh.entries = none) (hfull : fresh.entries.length = fresh.capacity) :
    ∃ cache', answer cache (.insert key value) = some ((list.insert key value).1, cache') ∧
      Represents cache' (list.insert key value).2 := by
  have hlookup := hfresh.lookup_eq key
  rw [hfind, Option.map_none] at hlookup
  obtain ⟨first, rest, hentries, hevicted, hcap, hrec, hroom, hsub⟩ := hfresh.evictLru hfull
  have hlist : list.insert key value =
      (⟨none, some first.1⟩, { list with entries := rest ++ [(key, value)] }) := by
    have hlength : (first :: rest).length = list.capacity := by
      rw [← hentries, hfresh.length_eq, hfull, hfresh.capacity_eq]
    unfold LruList.insert
    rw [hlookup, hentries]
    simp only
    rw [if_pos hlength]
    rfl
  have hinsert : cache.insert key value = some (none, { fresh.evictLru with
      entries := fresh.evictLru.entries ++ [(key, ⟨value, fresh.evictLru.recency⟩)] }) := by
    unfold BoundedLruCache.insert
    rw [hnext, Option.map_some]
    simp only [hfind, if_pos hfull, hrec]
  have hnone : find key fresh.evictLru.entries = none := by
    rw [find_eq_none_iff] at hfind ⊢
    exact fun hmem => hfind (List.map_subset _ hsub hmem)
  have happend := hevicted.append value hnone
    (fun p hp => by rw [hrec]; exact hlast p (hsub hp)) (by rw [hcap]; exact hroom)
  have hnew : key ∉ cache.entries.map Prod.fst := by
    rw [← h.keys_eq.mem_iff, hfresh.keys_eq.mem_iff]
    exact find_eq_none_iff.1 hfind
  refine ⟨_, ?_, by rw [hlist]; exact happend⟩
  show (cache.insert key value).map _ = _
  rw [hinsert, Option.map_some, h.dropped_head hentries hevicted hnew, hlist]

/-- `insert` never fails, and returns and evicts what the list does. -/
theorem Represents.answer_insert (h : Represents cache list) (key : K) (value : V) :
    ∃ cache', answer cache (.insert key value) = some ((list.insert key value).1, cache') ∧
      Represents cache' (list.insert key value).2 := by
  obtain ⟨stamp, fresh, hnext, hfresh, hcapacity, rfl, hlast⟩ := h.nextRecency
  have hlookup := hfresh.lookup_eq key
  have hkeys : ∀ key, key ∈ cache.entries.map Prod.fst ↔ key ∈ fresh.entries.map Prod.fst :=
    fun key => (h.keys_eq.mem_iff (a := key)).symm.trans hfresh.keys_eq.mem_iff
  cases hfind : find key fresh.entries with
  | some old =>
    rw [hfind, Option.map_some] at hlookup
    have hlist : list.insert key value = (⟨some old.value, none⟩,
        { list with entries := LruList.without key list.entries ++ [(key, value)] }) := by
      unfold LruList.insert
      rw [hlookup]
    have hinsert : cache.insert key value = some (some old.value, { fresh with
        entries := BoundedLruCache.replace key ⟨value, fresh.recency⟩ fresh.entries }) := by
      unfold BoundedLruCache.insert
      rw [hnext, Option.map_some]
      simp only [hfind]
    -- The key is there already: its entry is replaced and nothing is dropped.
    refine ⟨_, ?_, by rw [hlist]; exact hfresh.replace hfind hlast⟩
    show (cache.insert key value).map _ = _
    rw [hinsert, Option.map_some, dropped_eq_none, hlist]
    intro key hkey
    show key ∈ (BoundedLruCache.replace _ _ fresh.entries).map Prod.fst
    rw [map_fst_replace, ← hkeys]
    exact hkey
  | none =>
    by_cases hfull : fresh.entries.length = fresh.capacity
    · exact h.answer_insert_full hnext hfresh hlast hfind hfull
    · -- There is room: the new entry joins at the end.
      rw [hfind, Option.map_none] at hlookup
      have hroom : fresh.entries.length < fresh.capacity := by
        have := hfresh.size_le
        omega
      have hlist : list.insert key value =
          (⟨none, none⟩, { list with entries := list.entries ++ [(key, value)] }) := by
        have hlength : list.entries.length ≠ list.capacity := by
          rw [hfresh.length_eq, hfresh.capacity_eq]
          exact hfull
        unfold LruList.insert
        rw [hlookup]
        simp only
        rw [if_neg hlength]
      have hinsert : cache.insert key value = some (none, { fresh with
          entries := fresh.entries ++ [(key, ⟨value, fresh.recency⟩)] }) := by
        unfold BoundedLruCache.insert
        rw [hnext, Option.map_some]
        simp only [hfind, if_neg hfull]
      refine ⟨_, ?_, by rw [hlist]; exact hfresh.append value hfind hlast hroom⟩
      show (cache.insert key value).map _ = _
      rw [hinsert, Option.map_some, dropped_eq_none, hlist]
      intro other hother
      show other ∈ (fresh.entries ++ [(key, _)]).map Prod.fst
      rw [List.map_append, List.mem_append, ← hkeys]
      exact Or.inl hother

/-- Every operation answers as on the list and keeps representing it. -/
theorem Represents.answer (h : Represents cache list) (op : CacheOp K V) :
    ∃ cache', BoundedLruCache.answer cache op = some ((list.answer op).1, cache') ∧
      Represents cache' (list.answer op).2 := by
  cases op with
  | get key => exact h.answer_get key
  | insert key value => exact h.answer_insert key value
  | clear =>
    refine ⟨cache.clear, rfl, h.capacity_eq, h.capacity_pos, h.room, List.nodup_nil,
      Nat.zero_le _, ?_, [], ⟨List.Perm.nil, List.Pairwise.nil⟩, rfl⟩
    intro p hp
    exact absurd hp List.not_mem_nil

/-! ## What a cache holds -/

/-- The value of an entry, whatever its stamp. -/
def Holds (cache : BoundedLruCache K V) (key : K) (value : V) : Prop :=
  ∃ stamp, (key, (⟨value, stamp⟩ : CacheEntry V)) ∈ cache.entries

omit [DecidableEq K] in
theorem Represents.mem_iff (h : Represents cache list) {key : K} {value : V} :
    (key, value) ∈ list.entries ↔ cache.Holds key value := by
  obtain ⟨sorted, horder, hview⟩ := h.inUseOrder
  rw [hview, List.mem_map]
  constructor
  · rintro ⟨⟨key', entry⟩, hmem, heq⟩
    obtain ⟨rfl, rfl⟩ := Prod.mk.inj heq
    exact ⟨entry.lastUsed, horder.perm.mem_iff.1 hmem⟩
  · rintro ⟨stamp, hmem⟩
    exact ⟨_, horder.perm.mem_iff.2 hmem, rfl⟩

/-- The invariant of a cache by itself: it represents some list. -/
def Sound (capacity : Nat) (cache : BoundedLruCache K V) : Prop :=
  ∃ list, Represents cache list ∧ list.capacity = capacity

omit [DecidableEq K] in
theorem Sound.size_le {capacity : Nat} (h : Sound capacity cache) :
    cache.entries.length ≤ capacity := by
  obtain ⟨list, hrepresents, rfl⟩ := h
  rw [hrepresents.capacity_eq]
  exact hrepresents.size_le

/-- A lookup succeeds; what it finds was there, and it brings nothing new. -/
theorem Sound.get {capacity : Nat} (h : Sound capacity cache) (key : K) :
    ∃ found cache', cache.get key = some (found, cache') ∧ Sound capacity cache' ∧
      (∀ value, found = some value → cache.Holds key value) ∧
        ∀ key' value, cache'.Holds key' value → cache.Holds key' value := by
  obtain ⟨list, hrepresents, hcapacity⟩ := h
  obtain ⟨cache', hanswer, hnext⟩ := hrepresents.answer_get key
  obtain ⟨⟨found, cache''⟩, hget, hpair⟩ := Option.map_eq_some_iff.1 hanswer
  obtain ⟨hvalue, rfl⟩ := Prod.mk.inj hpair
  have hfound : found = (list.get key).1.value := congrArg CacheAnswer.value hvalue
  refine ⟨found, cache'', hget, ⟨_, hnext, (list.answer_capacity (.get key)).trans hcapacity⟩,
    ?_, ?_⟩
  · intro value heq
    exact hrepresents.mem_iff.1 (LruList.mem_of_get (hfound.symm.trans heq))
  · exact fun key' value hholds => hrepresents.mem_iff.1 (LruList.mem_get (hnext.mem_iff.2 hholds))

/-- An insertion succeeds, and brings its own entry. -/
theorem Sound.insert {capacity : Nat} (h : Sound capacity cache) (key : K) (value : V) :
    ∃ old cache', cache.insert key value = some (old, cache') ∧ Sound capacity cache' ∧
      ∀ key' value', cache'.Holds key' value' →
        cache.Holds key' value' ∨ (key' = key ∧ value' = value) := by
  obtain ⟨list, hrepresents, hcapacity⟩ := h
  obtain ⟨cache', hanswer, hnext⟩ := hrepresents.answer_insert key value
  obtain ⟨⟨old, cache''⟩, hinsert, hpair⟩ := Option.map_eq_some_iff.1 hanswer
  obtain ⟨-, rfl⟩ := Prod.mk.inj hpair
  refine ⟨old, cache'', hinsert,
    ⟨_, hnext, (list.answer_capacity (.insert key value)).trans hcapacity⟩, ?_⟩
  intro key' value' hholds
  rcases LruList.mem_insert (hnext.mem_iff.2 hholds) with hold | hnew
  · exact Or.inl (hrepresents.mem_iff.1 hold)
  · exact Or.inr (Prod.mk.inj hnew)

/-- A cleared cache holds nothing. -/
theorem Sound.clear {capacity : Nat} (h : Sound capacity cache) :
    Sound capacity cache.clear ∧ ∀ key value, ¬ cache.clear.Holds key value := by
  obtain ⟨list, hrepresents, hcapacity⟩ := h
  obtain ⟨cache', hanswer, hnext⟩ := hrepresents.answer .clear
  obtain ⟨-, rfl⟩ := Prod.mk.inj (Option.some.inj hanswer)
  refine ⟨⟨_, hnext, (list.answer_capacity .clear).trans hcapacity⟩, ?_⟩
  rintro key value ⟨stamp, hmem⟩
  exact absurd hmem List.not_mem_nil

/-! ## Runs -/

/-- **The cache is a least-recently-used list.** From any capacity that `new` accepts, every
sequence of operations succeeds, gives the values and evicts the keys of the least-recently-used
list, and ends with the same entries, within the capacity and with distinct stamps. The end of the
counter makes no difference: the entries are then renumbered. -/
theorem answers_eq_lruList {capacity : Nat} (hnew : new capacity = some cache)
    (ops : List (CacheOp K V)) :
    ∃ answers cache' list',
      Transition.answers BoundedLruCache.answer cache ops = some (answers, cache') ∧
      Transition.answers (fun list op => some (LruList.answer list op)) ⟨capacity, []⟩ ops =
        some (answers, list') ∧
      (∀ key, LruList.lookup key list'.entries =
        (find key cache'.entries).map CacheEntry.value) ∧
      cache'.entries.length ≤ capacity ∧ cache'.stamps.Nodup := by
  -- One operation: the simulation, which keeps the capacity as well.
  have hstep : ∀ (cache : BoundedLruCache K V) (list : LruList K V) (op : CacheOp K V),
      Represents cache list ∧ list.capacity = capacity →
      ∃ o cache' list', BoundedLruCache.answer cache op = some (o, cache') ∧
        some (list.answer op) = some (o, list') ∧
        Represents cache' list' ∧ list'.capacity = capacity := by
    rintro cache list op ⟨h, hcapacity⟩
    obtain ⟨cache', hanswer, hnext⟩ := h.answer op
    exact ⟨_, cache', (list.answer op).2, hanswer, rfl, hnext,
      (list.answer_capacity op).trans hcapacity⟩
  obtain ⟨answers, cache', list', hcache, hlist, hend, hcapacity⟩ :=
    Transition.answers_eq_of_simulation hstep ⟨represents_new hnew, rfl⟩ ops
  refine ⟨answers, cache', list', hcache, hlist, fun key =>
    hend.lookup_eq key, ?_, hend.stamps_nodup⟩
  rw [← hcapacity, hend.capacity_eq]
  exact hend.size_le

/-- A hit saves the oldest key from the next eviction. -/
theorem answers_eq_lruList_two : ∃ answers cache' list',
    Transition.answers BoundedLruCache.answer ⟨2, [], 0⟩
        [.insert 'a' 1, .insert 'b' 2, .get 'a', .insert 'c' 3] = some (answers, cache') ∧
      Transition.answers (fun list op => some (LruList.answer list op)) ⟨2, []⟩
        [.insert 'a' 1, .insert 'b' 2, .get 'a', .insert 'c' 3] = some (answers, list') ∧
      (∀ key, LruList.lookup key list'.entries =
        (find key cache'.entries).map CacheEntry.value) ∧
      cache'.entries.length ≤ 2 ∧ cache'.stamps.Nodup :=
  answers_eq_lruList rfl _

end Operations

end Notm.Ui.BoundedLruCache

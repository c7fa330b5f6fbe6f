import Notm.Mail.ReferenceCrates
import Notm.Ui.CacheRefinement
import Notm.Ui.SearchCaches

/-!
# A search finds nothing older than its start

Every entry of the caches was made of reads that are at least as new as the epoch in its key. A
search looks under the epoch that it found at its start, so what it returns, from the caches or
not, was read at that epoch or later; and what was read before an invalidation is never returned
by a search that starts after it.

* `Fresh` — what the caches hold was read at the epoch of its key or later.
* `loadSearchPage_does`, `invalidateSearchCaches_does` — what the programs do, operation by
  operation.
* `Found` — the page that a search has for what it was asked.
* `searches_served` — every search that is done has such a page.
* `search_after_invalidation_fresh` — and it is not older than an invalidation before it.
-/

namespace Notm.Ui.SearchCaches

open Rust Mail Notmuch Program

/-! ## What a result is made of -/

/-- The process `j` has read this, when the epoch was not below `since`. -/
def ReadSince (reads : List SearchRead) (since j : Nat) (answer : SearchReadAnswer) : Prop :=
  ∃ epoch, since ≤ epoch ∧ ⟨j, epoch, answer⟩ ∈ reads

section Made

variable (crates : Crates) (reads : List SearchRead) (since j : Nat)

/-- The files of a message, in their order: those before the first that can be read, and it. -/
inductive SourceRead : List Str → Option Bytes → Prop where
  | none : SourceRead [] none
  | skip {filename filenames content source} :
      ReadSince reads since j (.file filename content) →
      (∀ bytes, content = some bytes → threadDetailSourceMaxBytes < bytes.length) →
      SourceRead filenames source → SourceRead (filename :: filenames) source
  | take {filename filenames bytes} : ReadSince reads since j (.file filename (some bytes)) →
      bytes.length ≤ threadDetailSourceMaxBytes →
      SourceRead (filename :: filenames) (some bytes)

/-- What the source of a message adds. -/
def addSource (detail : ThreadUiDetails) (source : Option Bytes) : ThreadUiDetails :=
  match source.bind fun bytes => (parseRfc5322 crates bytes).toOption with
  | none => detail
  | some parsed => detail.addMessage parsed

/-- The details of a thread, from the sources of its messages. -/
def summarise (sources : List (Option Bytes)) : ThreadUiDetails :=
  sources.foldl (addSource crates) {}

/-- The details of a thread, from the answer of the database for several threads. -/
inductive DetailOf (threadId : Str) :
    Except Notmuch.Error (BTreeMap Str (BoundedThreadMessages MessageSummary)) →
      ThreadUiDetails → Prop where
  | failed (error) : DetailOf threadId (.error error) (unavailableThreadDetail error.text)
  | gone {outcomes} : outcomes.get? threadId = none → DetailOf threadId (.ok outcomes) {}
  | limited {outcomes outcome} : outcomes.get? threadId = some outcome → outcome.isLoaded = false →
      DetailOf threadId (.ok outcomes) (unavailableThreadDetail outcome.text)
  | loaded {outcomes messages sources} : outcomes.get? threadId = some (.loaded messages) →
      List.Forall₂ (fun message source => SourceRead reads since j message.filenames source)
        messages sources →
      DetailOf threadId (.ok outcomes) (summarise crates sources)

/-- A process has opened the database, with this path and at this revision. -/
structure Opened (path : Str) (revision : Revision) : Prop where
  opened : ReadSince reads since j .opened
  path : ReadSince reads since j (.path path)
  revision : ReadSince reads since j (.revision revision)

/-- The details of a thread are what some process has read. -/
def DetailRead (path : Str) (revision : Revision) (threadId : Str) (detail : ThreadUiDetails) :
    Prop :=
  ∃ j threadIds answer, Opened reads since j path revision ∧ threadId ∈ threadIds ∧
    ReadSince reads since j (.messages threadIds answer) ∧
      DetailOf crates reads since j threadId answer detail

/-- The page is what the process `j` has read; each of its threads has details. -/
structure PageRead (data : SearchPage) : Prop where
  opened : Opened reads since j data.databasePath data.revision
  tags : ∃ tags, ReadSince reads since j (.tags tags) ∧ data.tags = tags.take maxVisibleSearchTags
  threads : ReadSince reads since j
    (.threads data.query ⟨data.limit, data.offset, data.excludedTags⟩ data.threads)
  count : ∃ count, ReadSince reads since j
    (.count data.query ⟨data.limit, data.offset, data.excludedTags⟩ count) ∧
      data.count = count.toOption.getD data.threads.length
  details : ∀ threadId, (∃ detail, data.details.get? threadId = some detail) ↔
    threadId ∈ data.threads.map ThreadSummary.threadId
  detailRead : ∀ threadId detail, data.details.get? threadId = some detail →
    DetailRead crates reads since data.databasePath data.revision threadId detail

end Made

variable {crates : Crates} {reads later : List SearchRead} {since since' j : Nat}

theorem ReadSince.mono {answer : SearchReadAnswer} (h : ReadSince reads since j answer)
    (hreads : reads <+: later) (hsince : since' ≤ since) : ReadSince later since' j answer := by
  obtain ⟨epoch, hle, hmem⟩ := h
  exact ⟨epoch, hsince.trans hle, hreads.subset hmem⟩

theorem SourceRead.mono {filenames : List Str} {source : Option Bytes}
    (h : SourceRead reads since j filenames source) (hreads : reads <+: later)
    (hsince : since' ≤ since) : SourceRead later since' j filenames source := by
  induction h with
  | none => exact .none
  | skip hread hlong _ ih => exact .skip (hread.mono hreads hsince) hlong ih
  | take hread hshort => exact .take (hread.mono hreads hsince) hshort

theorem DetailOf.mono {threadId : Str}
    {answer : Except Notmuch.Error (BTreeMap Str (BoundedThreadMessages MessageSummary))}
    {detail : ThreadUiDetails} (h : DetailOf crates reads since j threadId answer detail)
    (hreads : reads <+: later) (hsince : since' ≤ since) :
    DetailOf crates later since' j threadId answer detail := by
  cases h with
  | failed error => exact .failed error
  | gone hnone => exact .gone hnone
  | limited hsome hlimited => exact .limited hsome hlimited
  | loaded hsome hsources =>
    exact .loaded hsome (hsources.imp fun _ _ hsource => hsource.mono hreads hsince)

theorem Opened.mono {path : Str} {revision : Revision}
    (h : Opened reads since j path revision) (hreads : reads <+: later) (hsince : since' ≤ since) :
    Opened later since' j path revision where
  opened := h.opened.mono hreads hsince
  path := h.path.mono hreads hsince
  revision := h.revision.mono hreads hsince

theorem DetailRead.mono {path threadId : Str} {revision : Revision} {detail : ThreadUiDetails}
    (h : DetailRead crates reads since path revision threadId detail) (hreads : reads <+: later)
    (hsince : since' ≤ since) : DetailRead crates later since' path revision threadId detail := by
  obtain ⟨j, threadIds, answer, hopened, hmem, hread, hdetail⟩ := h
  exact ⟨j, threadIds, answer, hopened.mono hreads hsince, hmem, hread.mono hreads hsince,
    hdetail.mono hreads hsince⟩

theorem PageRead.mono {data : SearchPage} (h : PageRead crates reads since j data)
    (hreads : reads <+: later) (hsince : since' ≤ since) : PageRead crates later since' j data where
  opened := h.opened.mono hreads hsince
  tags := h.tags.imp fun _ htags => ⟨htags.1.mono hreads hsince, htags.2⟩
  threads := h.threads.mono hreads hsince
  count := h.count.imp fun _ hcount => ⟨hcount.1.mono hreads hsince, hcount.2⟩
  details := h.details
  detailRead := fun threadId detail hdetail =>
    (h.detailRead threadId detail hdetail).mono hreads hsince

/-! ## The invariant -/

/-- A page bears the fields of its key. -/
structure UnderKey (key : SearchCacheKey) (data : SearchPage) : Prop where
  query : data.query = key.query
  offset : data.offset = key.offset
  limit : data.limit = key.limit
  excludedTags : data.excludedTags = key.excludedTags
  databasePath : data.databasePath = key.databasePath
  revision : data.revision = ⟨key.databaseRevision, key.databaseUuid⟩

/-- What the caches hold was read at the epoch of its key or later. -/
structure Fresh (crates : Crates) (s : SearchCaches) : Prop where
  pagesSound : BoundedLruCache.Sound searchPageCacheCapacity s.pages
  detailsSound : BoundedLruCache.Sound threadDetailCacheCapacity s.details
  epochs : ∀ read ∈ s.reads, read.epoch ≤ s.epoch
  pages : ∀ key data, s.pages.Holds key data →
    UnderKey key data ∧ ∃ j, PageRead crates s.reads key.cacheEpoch j data
  details : ∀ key detail, s.details.Holds key detail →
    DetailRead crates s.reads key.cacheEpoch key.databasePath
      ⟨key.databaseRevision, key.databaseUuid⟩ key.threadId detail

/-- What may become of the caches: the epoch rises, and more is read. -/
instance : Preorder SearchCaches where
  le s t := s.epoch ≤ t.epoch ∧ s.reads <+: t.reads
  le_refl s := ⟨le_rfl, List.prefix_rfl⟩
  le_trans _ _ _ h h' := ⟨h.1.trans h'.1, h.2.trans h'.2⟩

variable {s t : SearchCaches}

theorem fresh_initial (crates : Crates) : Fresh crates SearchCaches.initial := by
  have hnone : ∀ {K V : Type} (capacity : Nat), 0 < capacity → capacity < u64Max →
      BoundedLruCache.Sound capacity (⟨capacity, [], 0⟩ : BoundedLruCache K V) := by
    intro K V capacity hpos hroom
    refine ⟨⟨capacity, []⟩, BoundedLruCache.represents_new ?_, rfl⟩
    unfold BoundedLruCache.new
    rw [if_pos hpos, if_pos hroom]
  refine ⟨hnone _ (by decide) (by decide), hnone _ (by decide) (by decide), ?_, ?_, ?_⟩
  · exact fun read hread => absurd hread List.not_mem_nil
  · rintro key data ⟨stamp, hmem⟩
    exact absurd hmem List.not_mem_nil
  · rintro key detail ⟨stamp, hmem⟩
    exact absurd hmem List.not_mem_nil

/-! ## The operations keep it -/

/-- The caches are as before, and what they hold is still made of what has been read. -/
theorem Fresh.read (h : Fresh crates s) (i : Nat) (answer : SearchReadAnswer) :
    Fresh crates (s.read i answer) ∧ s ≤ s.read i answer := by
  have hreads : s.reads <+: (s.read i answer).reads := List.prefix_append _ _
  refine ⟨⟨h.pagesSound, h.detailsSound, ?_, ?_, ?_⟩, le_rfl, hreads⟩
  · intro read hread
    rcases List.mem_append.1 hread with hold | hnew
    · exact h.epochs read hold
    · rw [List.mem_singleton.1 hnew]
      exact le_rfl
  · intro key data hholds
    obtain ⟨hkey, j, hpage⟩ := h.pages key data hholds
    exact ⟨hkey, j, hpage.mono hreads le_rfl⟩
  · exact fun key detail hholds => (h.details key detail hholds).mono hreads le_rfl

/-- What has just been read has been read since any epoch that is not above the present one. -/
theorem readSince_read {i : Nat} {answer : SearchReadAnswer} (hsince : since ≤ s.epoch) :
    ReadSince (s.read i answer).reads since i answer :=
  ⟨s.epoch, hsince, List.mem_append_right _ (List.mem_singleton_self _)⟩

theorem Fresh.lookUpPage (h : Fresh crates s) {key : SearchCacheKey} {found : Option SearchPage}
    (hlook : s.lookUpPage key = some (found, t)) : Fresh crates t ∧ s ≤ t ∧
      ∀ data, found = some data →
        UnderKey key data ∧ ∃ j, PageRead crates t.reads key.cacheEpoch j data := by
  obtain ⟨found', pages, hget, hsound, hfound, hholds⟩ := h.pagesSound.get key
  unfold SearchCaches.lookUpPage at hlook
  rw [hget] at hlook
  obtain ⟨rfl, rfl⟩ := Prod.mk.inj (Option.some.inj hlook)
  refine ⟨⟨hsound, h.detailsSound, h.epochs, ?_, h.details⟩, ⟨le_rfl, List.prefix_rfl⟩, ?_⟩
  · exact fun key' data hheld => h.pages key' data (hholds key' data hheld)
  · exact fun data hdata => h.pages key data (hfound data hdata)

theorem Fresh.lookUpDetail (h : Fresh crates s) {key : ThreadDetailCacheKey}
    {found : Option ThreadUiDetails} (hlook : s.lookUpDetail key = some (found, t)) :
    Fresh crates t ∧ s ≤ t ∧ ∀ detail, found = some detail →
      DetailRead crates t.reads key.cacheEpoch key.databasePath
        ⟨key.databaseRevision, key.databaseUuid⟩ key.threadId detail := by
  obtain ⟨found', details, hget, hsound, hfound, hholds⟩ := h.detailsSound.get key
  unfold SearchCaches.lookUpDetail at hlook
  rw [hget] at hlook
  obtain ⟨rfl, rfl⟩ := Prod.mk.inj (Option.some.inj hlook)
  refine ⟨⟨h.pagesSound, hsound, h.epochs, h.pages, ?_⟩, ⟨le_rfl, List.prefix_rfl⟩, ?_⟩
  · exact fun key' detail hheld => h.details key' detail (hholds key' detail hheld)
  · exact fun detail hdetail => h.details key detail (hfound detail hdetail)

theorem Fresh.insertDetail (h : Fresh crates s) {key : ThreadDetailCacheKey}
    {detail : ThreadUiDetails}
    (hdetail : DetailRead crates s.reads key.cacheEpoch key.databasePath
      ⟨key.databaseRevision, key.databaseUuid⟩ key.threadId detail)
    (hinsert : s.insertDetail key detail = some t) : Fresh crates t ∧ s ≤ t := by
  obtain ⟨old, details, heq, hsound, hholds⟩ := h.detailsSound.insert key detail
  unfold SearchCaches.insertDetail at hinsert
  rw [heq] at hinsert
  obtain rfl := Option.some.inj hinsert
  refine ⟨⟨h.pagesSound, hsound, h.epochs, h.pages, ?_⟩, le_rfl, List.prefix_rfl⟩
  intro key' detail' hheld
  rcases hholds key' detail' hheld with hold | ⟨rfl, rfl⟩
  · exact h.details key' detail' hold
  · exact hdetail

theorem Fresh.insertPage (h : Fresh crates s) {key : SearchCacheKey} {data : SearchPage}
    (hkey : UnderKey key data) (hpage : ∃ j, PageRead crates s.reads key.cacheEpoch j data)
    (hinsert : s.insertPage key data = some t) : Fresh crates t ∧ s ≤ t := by
  obtain ⟨old, pages, heq, hsound, hholds⟩ := h.pagesSound.insert key data
  unfold SearchCaches.insertPage at hinsert
  rw [heq] at hinsert
  obtain rfl := Option.some.inj hinsert
  refine ⟨⟨hsound, h.detailsSound, h.epochs, ?_, h.details⟩, le_rfl, List.prefix_rfl⟩
  intro key' data' hheld
  rcases hholds key' data' hheld with hold | ⟨rfl, rfl⟩
  · exact h.pages key' data' hold
  · exact ⟨hkey, hpage⟩

theorem Fresh.cancel (h : Fresh crates s) {i : Nat} (hcancel : s.cancel i = some t) :
    Fresh crates t ∧ s ≤ t := by
  obtain rfl := Option.some.inj hcancel
  exact ⟨⟨h.pagesSound, h.detailsSound, h.epochs, h.pages, h.details⟩, le_rfl, List.prefix_rfl⟩

/-! ## What the operations ensure -/

/-- A program of the process `i` keeps the caches fresh, and `Q` holds of its result. -/
abbrev Does (crates : Crates) (i : Nat) {α : Type} (Q : SearchCaches → α → Prop)
    (program : SearchProgram α) (s : SearchCaches) : Prop :=
  Ensures SearchCaches.act (Fresh crates) i Q program s

variable {i : Nat}

/-- An operation that reads. -/
theorem does_of_read {op : SearchOp} {Q : SearchCaches → op.Answer → Prop}
    {f : op.Answer → SearchReadAnswer}
    (h : ∀ t environment answer u, act i t op environment = some (answer, u) →
      u = t.read i (f answer))
    (hQ : ∀ t answer, ReadSince t.reads since i (f answer) → Q t answer)
    (hsince : since ≤ s.epoch) : Does crates i Q (call op) s := by
  refine Ensures.call fun t hst ht environment answer u hact => ?_
  obtain rfl := h t environment answer u hact
  obtain ⟨hfresh, hle⟩ := ht.read i (f answer)
  refine ⟨hfresh, hle, fun v huv _ => hQ v answer ?_⟩
  exact (readSince_read (hsince.trans hst.1)).mono huv.2 le_rfl

theorem isCancelled_does : Does crates i (fun _ _ => True) SearchProgram.isCancelled s := by
  refine Ensures.call fun t _ ht environment answer u hact => ?_
  obtain ⟨-, rfl⟩ := Prod.mk.inj (Option.some.inj hact)
  exact ⟨ht, le_rfl, fun _ _ _ => trivial⟩

theorem loadEpoch_does :
    Does crates i (fun t epoch => s.epoch ≤ epoch ∧ epoch ≤ t.epoch) SearchProgram.loadEpoch s := by
  refine Ensures.call fun t hst ht environment answer u hact => ?_
  obtain ⟨rfl, rfl⟩ := Prod.mk.inj (Option.some.inj hact)
  exact ⟨ht, le_rfl, fun v huv _ => ⟨hst.1, huv.1⟩⟩

theorem openDatabase_does (hsince : since ≤ s.epoch) :
    Does crates i (fun t result => result = .ok () → ReadSince t.reads since i .opened)
      SearchProgram.openDatabase s := by
  refine Ensures.call fun t hst ht environment answer u hact => ?_
  obtain ⟨hanswer, hu⟩ := Prod.mk.inj (Option.some.inj hact)
  rw [hanswer] at hu
  cases hresult : answer with
  | error error =>
    rw [hresult] at hu
    obtain rfl : t = u := hu
    exact ⟨ht, le_rfl, fun v _ _ hok => absurd hok (by simp)⟩
  | ok opened =>
    rw [hresult] at hu
    obtain rfl : t.read i .opened = u := hu
    obtain ⟨hfresh, hle⟩ := ht.read i .opened
    refine ⟨hfresh, hle, fun v huv _ _ => ?_⟩
    exact (readSince_read (hsince.trans hst.1)).mono huv.2 le_rfl

theorem databasePath_does (hsince : since ≤ s.epoch) :
    Does crates i (fun t path => ReadSince t.reads since i (.path path))
      SearchProgram.databasePath s := by
  refine does_of_read (f := SearchReadAnswer.path) ?_ (fun _ _ hread => hread) hsince
  intro t environment answer u hact
  obtain ⟨rfl, rfl⟩ := Prod.mk.inj (Option.some.inj hact)
  rfl

theorem revision_does (hsince : since ≤ s.epoch) :
    Does crates i (fun t revision => ReadSince t.reads since i (.revision revision))
      SearchProgram.revision s := by
  refine does_of_read (f := SearchReadAnswer.revision) ?_ (fun _ _ hread => hread) hsince
  intro t environment answer u hact
  obtain ⟨rfl, rfl⟩ := Prod.mk.inj (Option.some.inj hact)
  rfl

theorem allTags_does (hsince : since ≤ s.epoch) :
    Does crates i (fun t tags => ReadSince t.reads since i (.tags tags)) SearchProgram.allTags
      s := by
  refine does_of_read (f := SearchReadAnswer.tags) ?_ (fun _ _ hread => hread) hsince
  intro t environment answer u hact
  obtain ⟨rfl, rfl⟩ := Prod.mk.inj (Option.some.inj hact)
  rfl

theorem searchThreads_does {query : Str} {options : QueryOptions} (hsince : since ≤ s.epoch) :
    Does crates i (fun t result => ∀ threads, result = .ok threads →
      ReadSince t.reads since i (.threads query options threads))
        (SearchProgram.searchThreads query options) s := by
  refine Ensures.call fun t hst ht environment answer u hact => ?_
  have hact := Option.some.inj hact
  cases hfound : environment.found with
  | error error =>
    rw [hfound] at hact
    obtain ⟨rfl, rfl⟩ := Prod.mk.inj hact
    exact ⟨ht, le_rfl, fun v _ _ threads hok => absurd hok (by simp)⟩
  | ok found =>
    rw [hfound] at hact
    obtain ⟨rfl, rfl⟩ := Prod.mk.inj hact
    obtain ⟨hfresh, hle⟩ := ht.read i (.threads query options (Notmuch.searchThreads found options))
    refine ⟨hfresh, hle, fun v huv _ threads hthreads => ?_⟩
    obtain rfl := Except.ok.inj hthreads
    exact (readSince_read (hsince.trans hst.1)).mono huv.2 le_rfl

theorem countThreads_does {query : Str} {options : QueryOptions} (hsince : since ≤ s.epoch) :
    Does crates i (fun t count => ReadSince t.reads since i (.count query options count))
      (SearchProgram.countThreads query options) s := by
  refine does_of_read (f := SearchReadAnswer.count query options) ?_ (fun _ _ hread => hread) hsince
  intro t environment answer u hact
  obtain ⟨rfl, rfl⟩ := Prod.mk.inj (Option.some.inj hact)
  rfl

theorem threadMessages_does {threadIds : List Str} (hsince : since ≤ s.epoch) :
    Does crates i (fun t messages => ReadSince t.reads since i (.messages threadIds messages))
      (SearchProgram.threadMessages threadIds) s := by
  refine does_of_read (f := SearchReadAnswer.messages threadIds) ?_ (fun _ _ hread => hread) hsince
  intro t environment answer u hact
  obtain ⟨rfl, rfl⟩ := Prod.mk.inj (Option.some.inj hact)
  rfl

theorem readFile_does {path : Str} {limit : Nat} (hsince : since ≤ s.epoch) :
    Does crates i (fun t bytes => ReadSince t.reads since i (.file path bytes))
      (SearchProgram.readFile path limit) s := by
  refine does_of_read (f := SearchReadAnswer.file path) ?_ (fun _ _ hread => hread) hsince
  intro t environment answer u hact
  obtain ⟨rfl, rfl⟩ := Prod.mk.inj (Option.some.inj hact)
  rfl

theorem lookUpPage_does {key : SearchCacheKey} :
    Does crates i (fun t found => ∀ data, found = some data →
      UnderKey key data ∧ ∃ j, PageRead crates t.reads key.cacheEpoch j data)
        (SearchProgram.lookUpPage key) s := by
  refine Ensures.call fun t hst ht environment answer u hact => ?_
  obtain ⟨hfresh, hle, hfound⟩ := ht.lookUpPage hact
  refine ⟨hfresh, hle, fun v huv _ data hdata => ?_⟩
  obtain ⟨hkey, j, hpage⟩ := hfound data hdata
  exact ⟨hkey, j, hpage.mono huv.2 le_rfl⟩

theorem lookUpDetail_does {key : ThreadDetailCacheKey} :
    Does crates i (fun t found => ∀ detail, found = some detail →
      DetailRead crates t.reads key.cacheEpoch key.databasePath
        ⟨key.databaseRevision, key.databaseUuid⟩ key.threadId detail)
          (SearchProgram.lookUpDetail key) s := by
  refine Ensures.call fun t hst ht environment answer u hact => ?_
  obtain ⟨hfresh, hle, hfound⟩ := ht.lookUpDetail hact
  exact ⟨hfresh, hle, fun v huv _ detail hdetail => (hfound detail hdetail).mono huv.2 le_rfl⟩

theorem insertDetail_does {key : ThreadDetailCacheKey} {detail : ThreadUiDetails}
    (hdetail : Always (Fresh crates) s fun t => DetailRead crates t.reads key.cacheEpoch
      key.databasePath ⟨key.databaseRevision, key.databaseUuid⟩ key.threadId detail) :
    Does crates i (fun _ _ => True) (SearchProgram.insertDetail key detail) s := by
  refine Ensures.call fun t hst ht environment answer u hact => ?_
  obtain ⟨t', hinsert, heq⟩ := Option.map_eq_some_iff.1 hact
  obtain ⟨-, rfl⟩ := Prod.mk.inj heq
  obtain ⟨hfresh, hle⟩ := ht.insertDetail (hdetail t hst ht) hinsert
  exact ⟨hfresh, hle, fun _ _ _ => trivial⟩

theorem insertDetailUnlessCancelled_does {key : ThreadDetailCacheKey} {detail : ThreadUiDetails}
    (hdetail : Always (Fresh crates) s fun t => DetailRead crates t.reads key.cacheEpoch
      key.databasePath ⟨key.databaseRevision, key.databaseUuid⟩ key.threadId detail) :
    Does crates i (fun _ _ => True) (SearchProgram.insertDetailUnlessCancelled key detail) s := by
  refine Ensures.call fun t hst ht environment answer u hact => ?_
  have hact : (if i ∈ t.cancelled then some (false, t)
    else (t.insertDetail key detail).map fun t => (true, t)) = some (answer, u) := hact
  split at hact
  · obtain ⟨-, rfl⟩ := Prod.mk.inj (Option.some.inj hact)
    exact ⟨ht, le_rfl, fun _ _ _ => trivial⟩
  · obtain ⟨t', hinsert, heq⟩ := Option.map_eq_some_iff.1 hact
    obtain ⟨-, rfl⟩ := Prod.mk.inj heq
    obtain ⟨hfresh, hle⟩ := ht.insertDetail (hdetail t hst ht) hinsert
    exact ⟨hfresh, hle, fun _ _ _ => trivial⟩

theorem insertPageUnlessCancelled_does {key : SearchCacheKey} {data : SearchPage}
    (hkey : UnderKey key data)
    (hpage : Always (Fresh crates) s fun t => ∃ j, PageRead crates t.reads key.cacheEpoch j data) :
    Does crates i (fun _ _ => True) (SearchProgram.insertPageUnlessCancelled key data) s := by
  refine Ensures.call fun t hst ht environment answer u hact => ?_
  have hact : (if i ∈ t.cancelled then some (false, t)
    else (t.insertPage key data).map fun t => (true, t)) = some (answer, u) := hact
  split at hact
  · obtain ⟨-, rfl⟩ := Prod.mk.inj (Option.some.inj hact)
    exact ⟨ht, le_rfl, fun _ _ _ => trivial⟩
  · obtain ⟨t', hinsert, heq⟩ := Option.map_eq_some_iff.1 hact
    obtain ⟨-, rfl⟩ := Prod.mk.inj heq
    obtain ⟨hfresh, hle⟩ := ht.insertPage hkey (hpage t hst ht) hinsert
    exact ⟨hfresh, hle, fun _ _ _ => trivial⟩

/-! ## The details of threads -/

theorem ensureSearchNotCancelled_does (hs : Fresh crates s) :
    Does crates i (fun _ _ => True) ensureSearchNotCancelled s := by
  refine isCancelled_does.bind hs fun t cancelled _ ht _ => ?_
  exact Ensures.ensure.weaken fun _ _ _ _ _ => trivial

/-- What follows the look at the flag follows it in a later state. -/
theorem does_after_look {α : Type} {Q : SearchCaches → α → Prop} {rest : SearchProgram α}
    (hs : Fresh crates s) (h : ∀ t, s ≤ t → Fresh crates t → Does crates i Q rest t) :
    Does crates i Q (ensureSearchNotCancelled >>= fun _ => rest) s :=
  (ensureSearchNotCancelled_does hs).bind hs fun t _ hst ht _ => h t hst ht

/-- The file has been read, and `none` stands for one that cannot be used. -/
theorem readThreadDetailSource_does {path : Str} (hs : Fresh crates s) (hsince : since ≤ s.epoch) :
    Does crates i (fun t source => ∃ content, ReadSince t.reads since i (.file path content) ∧
      source = content.filter fun bytes => bytes.length ≤ threadDetailSourceMaxBytes)
        (readThreadDetailSource path) s := by
  refine (readFile_does hsince).bind hs fun t content _ ht hread => ?_
  exact Ensures.pure fun u htu hu => ⟨content, hread u htu hu, rfl⟩

theorem addParsedSource_does {detail : ThreadUiDetails} {bytes : Bytes} (hs : Fresh crates s) :
    Does crates i (fun _ detail' => detail' = addSource crates detail (some bytes))
      (addParsedSource crates detail bytes) s := by
  unfold addParsedSource
  cases hparse : parseRfc5322 crates bytes with
  | ok parsed =>
    refine does_after_look hs fun t _ ht => Ensures.pure fun _ _ _ => ?_
    simp [addSource, hparse, Except.toOption]
  | error error =>
    refine Ensures.pure fun _ _ _ => ?_
    simp [addSource, hparse, Except.toOption]

theorem addFirstSource_does {detail : ThreadUiDetails} (filenames : List Str)
    (hs : Fresh crates s) (hsince : since ≤ s.epoch) :
    Does crates i (fun t detail' => ∃ source, SourceRead t.reads since i filenames source ∧
      detail' = addSource crates detail source) (addFirstSource crates detail filenames) s := by
  induction filenames generalizing s with
  | nil => exact Ensures.pure fun _ _ _ => ⟨none, .none, rfl⟩
  | cons filename filenames ih =>
    refine does_after_look hs fun t hst ht => ?_
    refine (readThreadDetailSource_does ht (hsince.trans hst.1)).bind ht ?_
    intro u source htu hu hread
    cases source with
    | none =>
      refine does_after_look hu fun v huv hv => ?_
      refine (ih hv (hsince.trans (hst.trans (htu.trans huv)).1)).weaken ?_
      rintro w detail' hvw hw ⟨source, hsource, hdetail⟩
      obtain ⟨content, hcontent, hnone⟩ := hread w (huv.trans hvw) hw
      refine ⟨source, .skip hcontent ?_ hsource, hdetail⟩
      rintro bytes rfl
      simpa [Option.filter] using hnone
    | some bytes =>
      have hsource : ∀ v, u ≤ v → Fresh crates v →
          SourceRead v.reads since i (filename :: filenames) (some bytes) := by
        intro v huv hv
        obtain ⟨content, hcontent, hsome⟩ := hread v huv hv
        obtain ⟨rfl, hshort⟩ := Option.filter_eq_some_iff.1 hsome.symm
        exact .take hcontent (of_decide_eq_true hshort)
      refine does_after_look hu fun v huv hv => ?_
      refine (addParsedSource_does hv).bind hv fun w detail' hvw hw hdetail => ?_
      refine does_after_look hw fun x hwx hx => ?_
      refine Ensures.pure fun y hxy hy => ⟨some bytes, hsource y ?_ hy, ?_⟩
      · exact huv.trans (hvw.trans (hwx.trans hxy))
      · exact hdetail y (hwx.trans hxy) hy

theorem computeThreadDetail_does (messages : List MessageSummary) (hs : Fresh crates s)
    (hsince : since ≤ s.epoch) :
    Does crates i (fun t detail => ∃ sources, List.Forall₂ (fun message source =>
      SourceRead t.reads since i message.filenames source) messages sources ∧
        detail = summarise crates sources) (computeThreadDetail crates messages) s := by
  refine Ensures.loop (fun (before : List MessageSummary) t detail => ∃ sources,
    List.Forall₂ (fun message source => SourceRead t.reads since i message.filenames source)
      before sources ∧ detail = summarise crates sources) hs (fun _ _ _ => ⟨[], .nil, rfl⟩) ?_
  intro before message detail t _ hst ht hbefore
  refine does_after_look ht fun u htu hu => ?_
  refine (addFirstSource_does message.filenames hu (hsince.trans (hst.trans htu).1)).weaken ?_
  rintro v detail' huv hv ⟨source, hsource, rfl⟩
  obtain ⟨sources, hsources, rfl⟩ := hbefore v (htu.trans huv) hv
  refine ⟨sources ++ [source], List.rel_append hsources (.cons hsource .nil), ?_⟩
  unfold summarise
  rw [List.foldl_append]
  rfl

/-- Details that were read, for the threads of which `threads` holds. -/
structure DetailsFor (crates : Crates) (reads : List SearchRead) (since : Nat) (path : Str)
    (revision : Revision) (threads : Str → Prop) (out : BTreeMap Str ThreadUiDetails) : Prop where
  keys : ∀ threadId, (∃ detail, out.get? threadId = some detail) ↔ threads threadId
  read : ∀ threadId detail, out.get? threadId = some detail →
    DetailRead crates reads since path revision threadId detail

theorem DetailsFor.insert {path threadId : Str} {revision : Revision}
    {threads threads' : Str → Prop}
    {out : BTreeMap Str ThreadUiDetails} {detail : ThreadUiDetails}
    (h : DetailsFor crates reads since path revision threads out)
    (hdetail : DetailRead crates reads since path revision threadId detail)
    (hthreads : ∀ id, threads' id ↔ threads id ∨ id = threadId) :
    DetailsFor crates reads since path revision threads' (out.insert threadId detail) where
  keys := by
    intro id
    rw [BTreeMap.get?_insert, hthreads, ← h.keys id]
    split
    · next heq => exact iff_of_true ⟨detail, rfl⟩ (Or.inr heq)
    · next hne => exact (or_iff_left hne).symm
  read := by
    intro id detail' hget
    rw [BTreeMap.get?_insert] at hget
    split at hget
    · next heq =>
      obtain rfl := Option.some.inj hget
      exact heq ▸ hdetail
    · exact h.read id detail' hget

/-- What the first loop has come to: details that were in the cache, and the threads without. -/
structure LooksUp (crates : Crates) (reads : List SearchRead) (since : Nat) (path : Str)
    (revision : Revision) (threads : List ThreadSummary) (lookups : ThreadDetailLookups) :
    Prop where
  out : DetailsFor crates reads since path revision
    (fun id => ∃ detail, lookups.out.get? id = some detail) lookups.out
  keys : ∀ id detail, lookups.out.get? id = some detail → id ∈ threads.map ThreadSummary.threadId
  missing : ∀ missing ∈ lookups.missing, missing.1 ∈ threads ∧
    missing.2 = threadDetailCacheKey path revision missing.1.threadId since
  covered : ∀ thread ∈ threads, (∃ detail, lookups.out.get? thread.threadId = some detail) ∨
    ∃ missing ∈ lookups.missing, missing.1.threadId = thread.threadId

theorem looksUp_nil {path : Str} {revision : Revision} :
    LooksUp crates reads since path revision [] ⟨.empty, []⟩ := by
  refine ⟨⟨fun _ => Iff.rfl, ?_⟩, ?_, ?_, ?_⟩
  · exact fun id detail hget => absurd hget (by simp)
  · exact fun id detail hget => absurd hget (by simp)
  · exact fun missing hmem => absurd hmem List.not_mem_nil
  · exact fun thread hmem => absurd hmem List.not_mem_nil

variable {path : Str} {revision : Revision} {before : List ThreadSummary}
  {lookups : ThreadDetailLookups}

/-- The details of the next thread were in the cache. -/
theorem LooksUp.found (hold : LooksUp crates reads since path revision before lookups)
    {thread : ThreadSummary} {detail : ThreadUiDetails}
    (hread : DetailRead crates reads since path revision thread.threadId detail) :
    LooksUp crates reads since path revision (before ++ [thread])
      { lookups with out := lookups.out.insert thread.threadId detail } := by
  refine ⟨hold.out.insert hread fun id => ?_, ?_, ?_, ?_⟩
  · show (∃ detail', (lookups.out.insert thread.threadId detail).get? id = some detail') ↔ _
    rw [BTreeMap.get?_insert]
    split
    · next heq => exact iff_of_true ⟨detail, rfl⟩ (Or.inr heq)
    · next hne => exact (or_iff_left hne).symm
  · intro id detail' hget
    rw [List.map_append, List.mem_append]
    rw [BTreeMap.get?_insert] at hget
    split at hget
    · next heq => exact Or.inr (List.mem_singleton.2 heq)
    · exact Or.inl (hold.keys id detail' hget)
  · intro missing hmem
    exact ⟨List.mem_append_left _ (hold.missing missing hmem).1,
      (hold.missing missing hmem).2⟩
  · intro other hother
    show (∃ detail', (lookups.out.insert thread.threadId detail).get? other.threadId =
      some detail') ∨ _
    rw [BTreeMap.get?_insert]
    split
    · exact Or.inl ⟨detail, rfl⟩
    · next hne =>
      rcases List.mem_append.1 hother with hmem | hmem
      · exact hold.covered other hmem
      · rw [List.mem_singleton.1 hmem] at hne
        exact absurd rfl hne

/-- The details of the next thread are missing. -/
theorem LooksUp.missed (hold : LooksUp crates reads since path revision before lookups)
    (thread : ThreadSummary) :
    LooksUp crates reads since path revision (before ++ [thread]) { lookups with
      missing := lookups.missing ++
        [(thread, threadDetailCacheKey path revision thread.threadId since)] } := by
  refine ⟨hold.out, ?_, ?_, ?_⟩
  · intro id detail hget
    rw [List.map_append]
    exact List.mem_append_left _ (hold.keys id detail hget)
  · intro missing hmem
    rcases List.mem_append.1 hmem with hmem | hmem
    · exact ⟨List.mem_append_left _ (hold.missing missing hmem).1,
        (hold.missing missing hmem).2⟩
    · rw [List.mem_singleton.1 hmem]
      exact ⟨List.mem_append_right _ (List.mem_singleton_self _), rfl⟩
  · intro other hother
    rcases List.mem_append.1 hother with hmem | hmem
    · rcases hold.covered other hmem with hout | ⟨missing, hmissing, heq⟩
      · exact Or.inl hout
      · exact Or.inr ⟨missing, List.mem_append_left _ hmissing, heq⟩
    · rw [List.mem_singleton.1 hmem]
      exact Or.inr ⟨_, List.mem_append_right _ (List.mem_singleton_self _), rfl⟩

theorem lookUpThreadDetails_does (threads : List ThreadSummary) (hs : Fresh crates s) :
    Does crates i (fun t lookups => LooksUp crates t.reads since path revision threads lookups)
      (threads.foldlM (lookUpThreadDetail path revision since) ⟨.empty, []⟩) s := by
  refine Ensures.loop (fun before t lookups =>
    LooksUp crates t.reads since path revision before lookups) hs (fun _ _ _ => looksUp_nil) ?_
  intro before thread lookups t _ hst ht hbefore
  refine does_after_look ht fun u htu hu => ?_
  refine lookUpDetail_does.bind hu fun v found huv hv hfound => ?_
  cases found with
  | some detail =>
    refine Ensures.pure fun w hvw hw => ?_
    exact (hbefore w (htu.trans (huv.trans hvw)) hw).found (hfound w hvw hw detail rfl)
  | none =>
    exact Ensures.pure fun w hvw hw => (hbefore w (htu.trans (huv.trans hvw)) hw).missed thread

theorem threadDetailOf_does {threadId : Str}
    {outcomes : BTreeMap Str (BoundedThreadMessages MessageSummary)} (hs : Fresh crates s)
    (hsince : since ≤ s.epoch) :
    Does crates i (fun t detail => DetailOf crates t.reads since i threadId (.ok outcomes) detail)
      (threadDetailOf crates (outcomes.get? threadId)) s := by
  cases hget : outcomes.get? threadId with
  | none => exact Ensures.pure fun t _ _ => .gone hget
  | some outcome =>
    cases outcome with
    | loaded messages =>
      refine (computeThreadDetail_does messages hs hsince).weaken ?_
      rintro t detail _ _ ⟨sources, hsources, rfl⟩
      exact .loaded hget hsources
    | threadLimitExceeded id total limit => exact Ensures.pure fun t _ _ => .limited hget rfl
    | batchLimitExceeded total limit => exact Ensures.pure fun t _ _ => .limited hget rfl

/-- The details that the last loops have come to: those from the cache, and those of the threads
behind them. -/
def DetailsBehind (crates : Crates) (since : Nat) (path : Str) (revision : Revision)
    (lookups : ThreadDetailLookups) (before : List (ThreadSummary × ThreadDetailCacheKey))
    (t : SearchCaches) (out : BTreeMap Str ThreadUiDetails) : Prop :=
  DetailsFor crates t.reads since path revision
    (fun id => (∃ detail, lookups.out.get? id = some detail) ∨
      ∃ missing ∈ before, missing.1.threadId = id) out

theorem DetailsBehind.next {before : List (ThreadSummary × ThreadDetailCacheKey)}
    {out : BTreeMap Str ThreadUiDetails} {missing : ThreadSummary × ThreadDetailCacheKey}
    {detail : ThreadUiDetails}
    (h : DetailsBehind crates since path revision lookups before t out)
    (hdetail : DetailRead crates t.reads since path revision missing.1.threadId detail) :
    DetailsBehind crates since path revision lookups (before ++ [missing]) t
      (out.insert missing.1.threadId detail) := by
  refine DetailsFor.insert h hdetail fun id => ?_
  simp only [List.mem_append, List.mem_singleton, or_and_right, exists_or, exists_eq_left,
    or_assoc]
  constructor
  · rintro (hout | hbefore | rfl)
    · exact Or.inl hout
    · exact Or.inr (Or.inl hbefore)
    · exact Or.inr (Or.inr rfl)
  · rintro (hout | hbefore | rfl)
    · exact Or.inl hout
    · exact Or.inr (Or.inl hbefore)
    · exact Or.inr (Or.inr rfl)

section Loops

variable {answer : Except Notmuch.Error (BTreeMap Str (BoundedThreadMessages MessageSummary))}

/-- The threads without details in the cache, and what the database has said about them. -/
structure Asked (crates : Crates) (since j : Nat) (path : Str) (revision : Revision)
    (lookups : ThreadDetailLookups)
    (answer : Except Notmuch.Error (BTreeMap Str (BoundedThreadMessages MessageSummary)))
    (t : SearchCaches) : Prop where
  out : DetailsFor crates t.reads since path revision
    (fun id => ∃ detail, lookups.out.get? id = some detail) lookups.out
  missing : ∀ missing ∈ lookups.missing,
    missing.2 = threadDetailCacheKey path revision missing.1.threadId since
  opened : Opened t.reads since j path revision
  read : ReadSince t.reads since j
    (.messages (lookups.missing.map fun missing => missing.1.threadId) answer)

/-- Details that follow from the answer are details that were read. -/
theorem Asked.detailRead (h : Asked crates since j path revision lookups answer t)
    {missing : ThreadSummary × ThreadDetailCacheKey} (hmem : missing ∈ lookups.missing)
    {detail : ThreadUiDetails}
    (hdetail : DetailOf crates t.reads since j missing.1.threadId answer detail) :
    DetailRead crates t.reads since path revision missing.1.threadId detail :=
  ⟨j, _, answer, h.opened, List.mem_map.2 ⟨missing, hmem, rfl⟩, h.read, hdetail⟩

/-- A detail under the key of its thread. -/
theorem detailRead_key {missing : ThreadSummary × ThreadDetailCacheKey} {detail : ThreadUiDetails}
    (hkey : missing.2 = threadDetailCacheKey path revision missing.1.threadId since)
    (h : DetailRead crates reads since path revision missing.1.threadId detail) :
    DetailRead crates reads missing.2.cacheEpoch missing.2.databasePath
      ⟨missing.2.databaseRevision, missing.2.databaseUuid⟩ missing.2.threadId detail := by
  rw [hkey]
  exact h

theorem detailsBehind_nil (h : Asked crates since j path revision lookups answer t) :
    DetailsBehind crates since path revision lookups [] t lookups.out := by
  refine ⟨fun id => ?_, h.out.read⟩
  rw [h.out.keys id]
  refine ⟨Or.inl, fun hor => hor.resolve_right ?_⟩
  rintro ⟨missing, hmem, -⟩
  exact List.not_mem_nil hmem

theorem warnThreadDetails_does {error : Notmuch.Error} (hs : Fresh crates s)
    (hasked : Always (Fresh crates) s
      (Asked crates since i path revision lookups (.error error))) :
    Does crates i (DetailsBehind crates since path revision lookups lookups.missing)
      (lookups.missing.foldlM (warnThreadDetail error) lookups.out) s := by
  refine Ensures.loop (DetailsBehind crates since path revision lookups) hs
    (fun t hst ht => detailsBehind_nil (hasked t hst ht)) ?_
  intro before missing out t hmem hst ht hbefore
  have hread : ∀ u, t ≤ u → Fresh crates u → DetailRead crates u.reads since path revision
      missing.1.threadId (unavailableThreadDetail error.text) :=
    fun u htu hu => (hasked u (hst.trans htu) hu).detailRead hmem (.failed error)
  have hkey := (hasked t hst ht).missing missing hmem
  refine does_after_look ht fun u htu hu => ?_
  have hinsert := insertDetail_does (i := i) (s := u)
    fun v huv hv => detailRead_key hkey (hread v (htu.trans huv) hv)
  refine hinsert.bind hu fun v _ huv _ _ => Ensures.pure fun w hvw hw => ?_
  have htw := htu.trans (huv.trans hvw)
  exact (hbefore w htw hw).next (hread w htw hw)

theorem loadThreadDetails_does
    {outcomes : BTreeMap Str (BoundedThreadMessages MessageSummary)} (hs : Fresh crates s)
    (hsince : since ≤ s.epoch)
    (hasked : Always (Fresh crates) s (Asked crates since i path revision lookups (.ok outcomes))) :
    Does crates i (DetailsBehind crates since path revision lookups lookups.missing)
      (lookups.missing.foldlM (loadThreadDetail crates outcomes) lookups.out) s := by
  refine Ensures.loop (DetailsBehind crates since path revision lookups) hs
    (fun t hst ht => detailsBehind_nil (hasked t hst ht)) ?_
  intro before missing out t hmem hst ht hbefore
  have hkey := (hasked t hst ht).missing missing hmem
  refine does_after_look ht fun u htu hu => ?_
  refine (threadDetailOf_does hu (hsince.trans (hst.trans htu).1)).bind hu ?_
  intro v detail huv hv hdetail
  have htv := htu.trans huv
  have hread : ∀ w, v ≤ w → Fresh crates w → DetailRead crates w.reads since path revision
      missing.1.threadId detail := fun w hvw hw =>
    (hasked w (hst.trans (htv.trans hvw)) hw).detailRead hmem (hdetail w hvw hw)
  refine does_after_look hv fun w hvw hw => ?_
  have hinsert := insertDetailUnlessCancelled_does (i := i) (s := w)
    fun x hwx hx => detailRead_key hkey (hread x (hvw.trans hwx) hx)
  refine hinsert.bind hw fun x _ hwx hx _ => ?_
  refine Ensures.ensure.bind hx fun y _ hxy _ _ => Ensures.pure fun z hyz hz => ?_
  have hvz := hvw.trans (hwx.trans (hxy.trans hyz))
  exact (hbefore z (htv.trans hvz) hz).next (hread z hvz hz)

/-- Every thread has its details, and no others have. -/
theorem LooksUp.details {threads : List ThreadSummary} {out : BTreeMap Str ThreadUiDetails}
    (h : LooksUp crates t.reads since path revision threads lookups)
    (hout : DetailsBehind crates since path revision lookups lookups.missing t out) :
    DetailsFor crates t.reads since path revision
      (· ∈ threads.map ThreadSummary.threadId) out := by
  refine ⟨fun id => (hout.keys id).trans ⟨?_, ?_⟩, hout.read⟩
  · rintro (⟨detail, hdetail⟩ | ⟨missing, hmem, rfl⟩)
    · exact h.keys id detail hdetail
    · exact List.mem_map.2 ⟨_, (h.missing missing hmem).1, rfl⟩
  · intro hmem
    obtain ⟨thread, hthread, rfl⟩ := List.mem_map.1 hmem
    exact h.covered thread hthread

theorem threadDetailsForThreads_does (threads : List ThreadSummary) (hs : Fresh crates s)
    (hsince : since ≤ s.epoch)
    (hopened : Always (Fresh crates) s fun t => Opened t.reads since i path revision) :
    Does crates i (fun t out => DetailsFor crates t.reads since path revision
      (· ∈ threads.map ThreadSummary.threadId) out)
        (threadDetailsForThreads crates path revision threads since) s := by
  refine (lookUpThreadDetails_does threads hs).bind hs fun t lookups hst ht hlookups => ?_
  refine does_after_look ht fun u htu hu => ?_
  refine (threadMessages_does (hsince.trans (hst.trans htu).1)).bind hu ?_
  intro v answer huv hv hread
  have hasked : Always (Fresh crates) v
      (Asked crates since i path revision lookups answer) := by
    intro w hvw hw
    have hlooked := hlookups w (htu.trans (huv.trans hvw)) hw
    refine ⟨hlooked.out, fun missing hmem => (hlooked.missing missing hmem).2, ?_,
      hread w hvw hw⟩
    exact hopened w (hst.trans (htu.trans (huv.trans hvw))) hw
  have hend : ∀ w out, v ≤ w → Fresh crates w →
      DetailsBehind crates since path revision lookups lookups.missing w out →
      DetailsFor crates w.reads since path revision (· ∈ threads.map ThreadSummary.threadId) out :=
    fun w out hvw hw hout => (hlookups w (htu.trans (huv.trans hvw)) hw).details hout
  cases answer with
  | error error => exact (warnThreadDetails_does hv hasked).weaken hend
  | ok outcomes =>
    refine does_after_look hv fun w hvw hw => ?_
    have hle : since ≤ w.epoch := hsince.trans (hst.trans (htu.trans (huv.trans hvw))).1
    refine (loadThreadDetails_does hw hle (hasked.later hvw)).weaken ?_
    exact fun x out hwx hx hout => hend x out (hvw.trans hwx) hx hout

end Loops

/-! ## A search -/

theorem canonicalExcludedTags_canonicalExcludedTags (excludedTags : List Str) :
    canonicalExcludedTags (canonicalExcludedTags excludedTags) =
      canonicalExcludedTags excludedTags := by
  have hsame : BTreeSet.ofList (BTreeSet.ofList excludedTags).toList =
      BTreeSet.ofList excludedTags := by
    refine BTreeSet.eq_of_mem_iff fun tag => ?_
    rw [BTreeSet.mem_ofList, BTreeSet.mem_toList]
  exact congrArg BTreeSet.toList hsame

theorem databaseAnswer_does {α : Type} {answer : Except Notmuch.Error α} :
    Does crates i (fun _ value => answer = .ok value) (databaseAnswer answer) s := by
  refine Ensures.ofExcept fun value hvalue t _ _ => ?_
  cases answer with
  | error error => exact absurd hvalue (by simp [Except.mapError])
  | ok value' => exact congrArg Except.ok (Except.ok.inj hvalue)

theorem countOf_does {policy : SearchCachePolicy} {query : Str} {options : QueryOptions}
    {threads : List ThreadSummary} (hs : Fresh crates s) (hsince : since ≤ s.epoch) :
    Does crates i (fun t n => ∃ count, ReadSince t.reads since i (.count query options count) ∧
      n = count.toOption.getD threads.length) (countOf policy query options threads) s := by
  refine (countThreads_does hsince).bind hs fun t count _ ht hread => ?_
  cases policy with
  | use => exact Ensures.pure fun u htu hu => ⟨count, hread u htu hu, rfl⟩
  | bypass =>
    refine databaseAnswer_does.weaken ?_
    rintro u n htu hu rfl
    exact ⟨.ok n, hread u htu hu, rfl⟩

theorem keepPage_does {policy : SearchCachePolicy} {key : SearchCacheKey} {data : SearchPage}
    (hs : Fresh crates s) (hkey : UnderKey key data)
    (hpage : Always (Fresh crates) s fun t => PageRead crates t.reads key.cacheEpoch i data) :
    Does crates i (fun _ _ => True) (keepPage policy key data) s := by
  cases policy with
  | use =>
    refine (insertPageUnlessCancelled_does hkey fun t hst ht => ⟨i, hpage t hst ht⟩).bind hs ?_
    exact fun t _ _ ht _ => Ensures.ensure.weaken fun _ _ _ _ _ => trivial
  | bypass => exact Ensures.pure fun _ _ _ => trivial

variable {search : PageSearch}

/-- A page that a search has loaded itself. -/
theorem loadSearchPage_does {excludedTags : List Str} {key : SearchCacheKey}
    (hs : Fresh crates s) (hsince : since ≤ s.epoch)
    (hexcluded : canonicalExcludedTags excludedTags = excludedTags)
    (hkey : key = searchCacheKey search.query path revision search.offset search.limit excludedTags
      since)
    (hopened : Always (Fresh crates) s fun t => Opened t.reads since i path revision) :
    Does crates i (fun t data => UnderKey key data ∧ data.cached = false ∧
      PageRead crates t.reads since i data)
        (loadSearchPage crates search excludedTags since path revision key) s := by
  -- Each read is of the present epoch or a later one, since the epoch only grows. What a read has
  -- answered is among the reads of every later state.
  refine (allTags_does hsince).bind hs fun t₁ tags h₁ ht₁ htags => ?_
  refine does_after_look ht₁ fun t₂ h₂ ht₂ => ?_
  have hs₂ := h₁.trans h₂
  refine (searchThreads_does (hsince.trans hs₂.1)).bind ht₂ fun t₃ found h₃ ht₃ hfound => ?_
  refine databaseAnswer_does.bind ht₃ fun t₄ threads h₄ ht₄ hthreads => ?_
  have hs₄ := hs₂.trans (h₃.trans h₄)
  refine does_after_look ht₄ fun t₅ h₅ ht₅ => ?_
  refine (countOf_does ht₅ (hsince.trans (hs₄.trans h₅).1)).bind ht₅ ?_
  intro t₆ count h₆ ht₆ hcount
  refine does_after_look ht₆ fun t₇ h₇ ht₇ => ?_
  have hs₇ := hs₄.trans (h₅.trans (h₆.trans h₇))
  refine (revision_does (hsince.trans hs₇.1)).bind ht₇ fun t₈ completed h₈ ht₈ _ => ?_
  refine does_after_look ht₈ fun t₉ h₉ ht₉ => ?_
  refine Ensures.ensure.bind ht₉ fun t₁₀ _ h₁₀ ht₁₀ _ => ?_
  have hs₁₀ := hs₇.trans (h₈.trans (h₉.trans h₁₀))
  refine (threadDetailsForThreads_does threads ht₁₀ (hsince.trans hs₁₀.1)
    (hopened.later hs₁₀)).bind ht₁₀ fun t₁₁ details h₁₁ ht₁₁ hdetails => ?_
  refine does_after_look ht₁₁ fun t₁₂ h₁₂ ht₁₂ => does_after_look ht₁₂ fun t₁₃ h₁₃ ht₁₃ => ?_
  have hs₁₃ := hs₁₀.trans (h₁₁.trans (h₁₂.trans h₁₃))
  have hunder : UnderKey key
      { query := search.query, excludedTags, threads, details, count, offset := search.offset
        limit := search.limit, tags := tags.take maxVisibleSearchTags, databasePath := path
        revision, cached := false } := by
    rw [hkey]
    exact ⟨rfl, rfl, rfl, hexcluded.symm, rfl, rfl⟩
  have hpage : Always (Fresh crates) t₁₃ fun t => PageRead crates t.reads since i
      { query := search.query, excludedTags, threads, details, count, offset := search.offset
        limit := search.limit, tags := tags.take maxVisibleSearchTags, databasePath := path
        revision, cached := false } := by
    intro t h ht
    refine ⟨hopened t (hs₁₃.trans h) ht, ⟨tags, htags t (by order) ht, rfl⟩, ?_, ?_, ?_, ?_⟩
    · exact hfound t (by order) ht threads (hthreads t (by order) ht)
    · exact hcount t (by order) ht
    · exact (hdetails t (by order) ht).keys
    · exact (hdetails t (by order) ht).read
  -- The key holds the epoch of the search, which is what makes the page fresh enough to be kept.
  have hepoch : key.cacheEpoch = since := by rw [hkey]; rfl
  refine (keepPage_does ht₁₃ hunder (hepoch ▸ hpage)).bind ht₁₃ fun t₁₄ _ h₁₄ _ _ => ?_
  exact Ensures.pure fun t h ht => ⟨hunder, rfl, hpage t (h₁₄.trans h) ht⟩

/-- The page that the process `i` has for its search, when it began at `since`. -/
structure Found (crates : Crates) (reads : List SearchRead) (since i : Nat) (search : PageSearch)
    (data : SearchPage) : Prop where
  limit : 1 ≤ search.limit ∧ search.limit ≤ maxSearchPageSize
  query : data.query = search.query
  offset : data.offset = search.offset
  pageSize : data.limit = search.limit
  excludedTags : data.excludedTags = canonicalExcludedTags search.excludedTags
  /-- the search has seen the database of the page -/
  opened : Opened reads since i data.databasePath data.revision
  /-- the page was read by a search; by this one, unless it comes from the cache -/
  page : ∃ j, PageRead crates reads since j data ∧ (data.cached = false → j = i)
  policy : search.cachePolicy = .bypass → data.cached = false

theorem PageRead.cached {data : SearchPage} (h : PageRead crates reads since j data)
    (cached : Bool) : PageRead crates reads since j { data with cached := cached } :=
  ⟨h.opened, h.tags, h.threads, h.count, h.details, h.detailRead⟩

theorem Found.mono {data : SearchPage} (h : Found crates reads since i search data)
    (hsince : since' ≤ since) : Found crates reads since' i search data where
  limit := h.limit
  query := h.query
  offset := h.offset
  pageSize := h.pageSize
  excludedTags := h.excludedTags
  opened := h.opened.mono List.prefix_rfl hsince
  page := h.page.imp fun _ hpage => ⟨hpage.1.mono List.prefix_rfl hsince, hpage.2⟩
  policy := h.policy

/-- A page under the key of a search is one for it. -/
theorem UnderKey.found {data : SearchPage}
    (h : UnderKey (searchCacheKey search.query path revision search.offset search.limit
      (canonicalExcludedTags search.excludedTags) since') data) :
    data.query = search.query ∧ data.offset = search.offset ∧ data.limit = search.limit ∧
      data.excludedTags = canonicalExcludedTags search.excludedTags ∧ data.databasePath = path ∧
        data.revision = revision :=
  ⟨h.query, h.offset, h.limit,
    h.excludedTags.trans (canonicalExcludedTags_canonicalExcludedTags search.excludedTags),
    h.databasePath, h.revision⟩

theorem cachedPage_does {policy : SearchCachePolicy} {key : SearchCacheKey} :
    Does crates i (fun t found => ∀ data, found = some data → policy = .use ∧
      UnderKey key data ∧ ∃ j, PageRead crates t.reads key.cacheEpoch j data)
        (cachedPage policy key) s := by
  cases policy with
  | use =>
    exact lookUpPage_does.weaken fun t found _ _ h data hdata => ⟨rfl, h data hdata⟩
  | bypass => exact Ensures.pure fun _ _ _ data hdata => absurd hdata (by simp)

theorem executeSearchPageWithCancel_does (hs : Fresh crates s) :
    Does crates i (fun t data => Found crates t.reads s.epoch i search data)
      (executeSearchPageWithCancel crates search) s := by
  refine Ensures.ensure.bind hs fun t₁ _ h₁ ht₁ hlimit => ?_
  have hlimit := hlimit t₁ le_rfl ht₁
  rw [Bool.and_eq_true, decide_eq_true_eq, decide_eq_true_eq] at hlimit
  refine does_after_look ht₁ fun t₂ h₂ ht₂ => ?_
  refine loadEpoch_does.bind ht₂ fun t₃ since h₃ ht₃ hsince => ?_
  have hnewer : s.epoch ≤ since := (h₁.trans h₂).1.trans (hsince t₃ le_rfl ht₃).1
  have hsince : since ≤ t₃.epoch := (hsince t₃ le_rfl ht₃).2
  refine (openDatabase_does hsince).bind ht₃ fun t₄ result h₄ ht₄ hopen => ?_
  have hok : Does crates i (fun _ _ => result = .ok ()) (Program.ofExcept result) t₄ :=
    Ensures.ofExcept fun _ hvalue _ _ _ => hvalue
  refine hok.bind ht₄ fun t₅ _ h₅ ht₅ hresult => ?_
  refine does_after_look ht₅ fun t₆ h₆ ht₆ => ?_
  have h₃₆ := h₄.trans (h₅.trans h₆)
  refine (revision_does (hsince.trans h₃₆.1)).bind ht₆ fun t₇ revision h₇ ht₇ hrevision => ?_
  have h₃₇ := h₃₆.trans h₇
  refine (databasePath_does (hsince.trans h₃₇.1)).bind ht₇ fun t₈ path h₈ ht₈ hpath => ?_
  have hopened : Always (Fresh crates) t₈ fun t => Opened t.reads since i path revision := by
    intro t h ht
    exact ⟨hopen t (by order) ht (hresult t (by order) ht), hpath t h ht,
      hrevision t (by order) ht⟩
  refine cachedPage_does.bind ht₈ fun t₉ found h₉ ht₉ hfound => ?_
  -- A page of the cache has been read by some search since the key's epoch, one that is loaded by
  -- this.
  cases found with
  | some data =>
    refine does_after_look ht₉ fun t₁₀ h₁₀ ht₁₀ => Ensures.pure fun t h ht => ?_
    obtain ⟨huse, hkey, j, hpage⟩ := hfound t (h₁₀.trans h) ht data rfl
    obtain ⟨hquery, hoffset, hsize, hexcluded, rfl, rfl⟩ := hkey.found
    have hseen := (hopened t (by order) ht).mono List.prefix_rfl hnewer
    have hpage := (hpage.cached true).mono List.prefix_rfl hnewer
    refine ⟨hlimit, hquery, hoffset, hsize, hexcluded, hseen, ⟨j, hpage, ?_⟩, ?_⟩
    · exact fun hcached => absurd hcached (by simp)
    · exact fun hbypass => absurd (huse.symm.trans hbypass) (by simp)
  | none =>
    refine (loadSearchPage_does ht₉ (hsince.trans (h₃₇.trans (h₈.trans h₉)).1)
      (canonicalExcludedTags_canonicalExcludedTags _) rfl (hopened.later h₉)).weaken ?_
    rintro t data h ht ⟨hkey, hcached, hpage⟩
    obtain ⟨hquery, hoffset, hsize, hexcluded, rfl, rfl⟩ := hkey.found
    have hseen := (hopened t (by order) ht).mono List.prefix_rfl hnewer
    exact ⟨hlimit, hquery, hoffset, hsize, hexcluded, hseen,
      ⟨i, hpage.mono List.prefix_rfl hnewer, fun _ => rfl⟩, fun _ => hcached⟩

/-! ## An invalidation -/

/-- When it has returned, the epoch is above that of its start. -/
theorem invalidateSearchCaches_does (hs : Fresh crates s) :
    Does crates i (fun t _ => s.epoch < t.epoch) invalidateSearchCaches s := by
  have hbump : Does crates i (fun t _ => s.epoch < t.epoch) SearchProgram.bumpEpoch s := by
    refine Ensures.call fun t hst ht environment answer u hact => ?_
    obtain ⟨-, rfl⟩ := Prod.mk.inj (Option.some.inj hact)
    refine ⟨⟨ht.pagesSound, ht.detailsSound, ?_, ht.pages, ht.details⟩,
      ⟨Nat.le_succ t.epoch, List.prefix_rfl⟩, fun v huv _ => ?_⟩
    · exact fun read hread => (ht.epochs read hread).trans (Nat.le_succ t.epoch)
    · exact Nat.lt_of_lt_of_le (Nat.lt_succ_of_le hst.1) huv.1
  have hpages : ∀ t, Does crates i (fun _ _ => True) SearchProgram.clearPages t := by
    refine fun t => Ensures.call fun u _ hu environment answer v hact => ?_
    obtain ⟨-, rfl⟩ := Prod.mk.inj (Option.some.inj hact)
    obtain ⟨hsound, hnone⟩ := hu.pagesSound.clear
    refine ⟨⟨hsound, hu.detailsSound, hu.epochs, ?_, hu.details⟩, ⟨le_rfl, List.prefix_rfl⟩,
      fun _ _ _ => trivial⟩
    exact fun key data hholds => absurd hholds (hnone key data)
  have hdetails : ∀ t, Does crates i (fun _ _ => True) SearchProgram.clearDetails t := by
    refine fun t => Ensures.call fun u _ hu environment answer v hact => ?_
    obtain ⟨-, rfl⟩ := Prod.mk.inj (Option.some.inj hact)
    obtain ⟨hsound, hnone⟩ := hu.detailsSound.clear
    refine ⟨⟨hu.pagesSound, hsound, hu.epochs, hu.pages, ?_⟩, ⟨le_rfl, List.prefix_rfl⟩,
      fun _ _ _ => trivial⟩
    exact fun key detail hholds => absurd hholds (hnone key detail)
  refine hbump.bind hs fun t _ _ ht hepoch => ?_
  refine (hpages t).bind ht fun u _ htu hu _ => ?_
  exact (hdetails u).weaken fun v _ huv hv _ => hepoch v (htu.trans huv) hv

/-! ## Every run -/

/-- What a process has come to, when it is done. -/
def Result (crates : Crates) (i : Nat) (use : CacheUse) (began t : SearchCaches) :
    Option SearchPage → Prop
  | some data => ∃ search, use = .search search ∧ Found crates t.reads began.epoch i search data
  | none => use = .invalidate ∧ began.epoch < t.epoch

theorem body_does (i : Nat) (use : CacheUse) (hs : Fresh crates s) :
    Does crates i (Result crates i use s) (use.body crates) s := by
  cases use with
  | search search =>
    refine (executeSearchPageWithCancel_does hs).bind hs fun t data _ _ hfound => ?_
    exact Ensures.pure fun u htu hu => ⟨search, rfl, hfound u htu hu⟩
  | invalidate =>
    refine (invalidateSearchCaches_does hs).bind hs fun t _ _ _ hepoch => ?_
    exact Ensures.pure fun u htu hu => ⟨rfl, hepoch u htu hu⟩

/-- No operation fails: the caches do not panic. -/
theorem Fresh.act_isSome (h : Fresh crates s) (op : SearchOp) (environment : Environment) :
    ∃ answer, act i s op environment = some answer := by
  -- The index of a cache agrees with its order, so no operation on it can panic.
  have hinsert : ∀ key detail, ∃ t, s.insertDetail key detail = some t := by
    intro key detail
    obtain ⟨old, details, heq, -⟩ := h.detailsSound.insert key detail
    exact ⟨{ s with details := details }, by rw [SearchCaches.insertDetail, heq]; rfl⟩
  cases op with
  | lookUpPage key =>
    obtain ⟨found, pages, hget, -⟩ := h.pagesSound.get key
    exact ⟨(found, { s with pages := pages }), by
      show s.lookUpPage key = _
      rw [SearchCaches.lookUpPage, hget]
      rfl⟩
  | lookUpDetail key =>
    obtain ⟨found, details, hget, -⟩ := h.detailsSound.get key
    exact ⟨(found, { s with details := details }), by
      show s.lookUpDetail key = _
      rw [SearchCaches.lookUpDetail, hget]
      rfl⟩
  | insertDetail key detail =>
    obtain ⟨t, ht⟩ := hinsert key detail
    exact ⟨((), t), by
      show (s.insertDetail key detail).map _ = _
      rw [ht]
      rfl⟩
  | insertDetailUnlessCancelled key detail =>
    obtain ⟨t, ht⟩ := hinsert key detail
    by_cases hset : i ∈ s.cancelled
    · exact ⟨(false, s), if_pos hset⟩
    · refine ⟨(true, t), (if_neg hset).trans ?_⟩
      rw [ht]
      rfl
  | insertPageUnlessCancelled key data =>
    obtain ⟨old, pages, heq, -⟩ := h.pagesSound.insert key data
    by_cases hset : i ∈ s.cancelled
    · exact ⟨(false, s), if_pos hset⟩
    · refine ⟨(true, { s with pages := pages }), (if_neg hset).trans ?_⟩
      rw [SearchCaches.insertPage, heq]
      rfl
  | cancelled | loadEpoch | openDatabase | databasePath | revision | allTags | searchThreads
  | countThreads | threadMessages | readFile | bumpEpoch | clearPages | clearDetails =>
    exact ⟨_, rfl⟩

/-- The searches and invalidations of a reachable state are sound. -/
theorem sound_of_run {p : Searches}
    {trace : List (Searches × ProcessEvent CacheUse Environment Nat)}
    (h : Transition.Run (Transition.Steps (Searches.step crates)) Searches.initial trace p) :
    p.Sound SearchCaches.act (Fresh crates) (Result crates) := by
  have hinitial : Searches.initial.Sound SearchCaches.act (Fresh crates) (Result crates) := by
    refine ⟨fresh_initial crates, ?_, ?_⟩
    · exact fun i process hprocess => absurd hprocess (by simp [Searches.initial])
    · exact fun i process hprocess => absurd hprocess (by simp [Searches.initial])
  exact (hinitial.run (fun i use s hs => body_does i use hs) (fun s i t hs => hs.cancel) h).1

/-- **What the caches are worth.** A search that is done has the page for what it was asked, made of
what was read since it began; both caches stay within their capacities; and a process can always
perform its next operation, whatever the database and the files answer. -/
structure Serves (crates : Crates) (p : Searches) : Prop where
  /-- a search that is done has the page that it was to find -/
  found : ∀ (i : Nat) process data, p.started[i]? = some process →
    process.program.result = some (some data) → ∃ search, process.request = .search search ∧
      Found crates p.shared.reads process.began.epoch i search data
  bounded : p.shared.pages.entries.length ≤ searchPageCacheCapacity ∧
    p.shared.details.entries.length ≤ threadDetailCacheCapacity
  /-- no operation of a process panics, nor waits for another process -/
  goesOn : ∀ (i : Nat) process op next, p.started[i]? = some process →
    process.program = .perform op next → ∀ environment,
      ∃ p', Searches.step crates p (.perform i environment) = some p'

/-- **Searches are served.** However the searches, the invalidations and the cancellations meet, a
search that is done has a page for what it was asked, and all that the page is made of was read by a
search, at an epoch that is not below that of its start. The caches stay within their bounds, and no
operation on them fails. -/
theorem searches_served {p : Searches}
    {trace : List (Searches × ProcessEvent CacheUse Environment Nat)}
    (h : Transition.Run (Transition.Steps (Searches.step crates)) Searches.initial trace p) :
    Serves crates p := by
  have hsound := sound_of_run h
  refine ⟨fun i process data hprocess hdata => hsound.result hprocess hdata,
    ⟨hsound.shared.pagesSound.size_le, hsound.shared.detailsSound.size_le⟩, ?_⟩
  intro i process op next hprocess hperform environment
  obtain ⟨answer, hanswer⟩ := hsound.shared.act_isSome (i := i) op environment
  refine ⟨_, Option.bind_eq_some_iff.2 ⟨process, hprocess, Option.map_eq_some_iff.2
    ⟨({ process with program := next answer.1 }, answer.2), ?_, rfl⟩⟩⟩
  unfold Process.perform
  rw [hperform]
  exact Option.map_eq_some_iff.2 ⟨answer, hanswer, rfl⟩

/-- **Invalidation.** A search that starts when an invalidation has returned finds nothing that was
read before the invalidation began. The epoch that it finds is above the one of those reads, and
every page and every detail that it finds under its key is of that epoch or a later one. -/
theorem search_after_invalidation_fresh {p q : Searches}
    {before after : List (Searches × ProcessEvent CacheUse Environment Nat)}
    (hp : Transition.Run (Transition.Steps (Searches.step crates)) Searches.initial before p)
    (hq : Transition.Run (Transition.Steps (Searches.step crates)) p after q) {i k : Nat}
    {invalidation found : Process SearchCaches CacheUse SearchOp SearchOp.Answer Str
      (Option SearchPage)} {data : SearchPage}
    (hinvalidation : p.started[k]? = some invalidation)
    (hreturned : invalidation.program.result = some none)
    (hlater : p.started.length ≤ i) (hfound : q.started[i]? = some found)
    (hdata : found.program.result = some (some data)) :
    (∀ read ∈ invalidation.began.reads, read.epoch ≤ invalidation.began.epoch) ∧
      ∃ search, found.request = .search search ∧
        Found crates q.shared.reads (invalidation.began.epoch + 1) i search data := by
  have hsound := sound_of_run hp
  obtain ⟨-, hraised⟩ := hsound.result hinvalidation hreturned
  obtain ⟨hsound', -, hbegan⟩ :=
    hsound.run (fun i use s hs => body_does i use hs) (fun s i t hs => hs.cancel) hq
  obtain ⟨search, hrequest, hpage⟩ := hsound'.result hfound hdata
  -- The search starts at an epoch above the one that the invalidation has found.
  have hle : invalidation.began.epoch + 1 ≤ found.began.epoch :=
    Nat.lt_of_lt_of_le hraised (hbegan i found hlater hfound).1
  refine ⟨((hsound.began k invalidation hinvalidation).1).epochs, search, hrequest, ?_⟩
  exact hpage.mono hle

/-! ## Two searches and an invalidation -/

/-- One thread of no messages. -/
def oneThread : Environment where
  revision := ⟨1, []⟩
  found := .ok [⟨['t'], [], false, false⟩]
  count := .ok 1

/-- The thread is gone, at the same revision. -/
def noThread : Environment where
  revision := ⟨1, []⟩

def anyMail : PageSearch := ⟨['*'], 0, 10, [], .use⟩

/-- A search fills the caches, another one is served from them, an invalidation follows. -/
def searchedTwice : List (ProcessEvent CacheUse Environment Nat) :=
  [.start (.search anyMail)] ++ List.replicate 26 (.perform 0 oneThread) ++
    [.start (.search anyMail)] ++ List.replicate 8 (.perform 1 noThread) ++
    [.start .invalidate] ++ List.replicate 3 (.perform 2 noThread)

/-- A third search. -/
def searchedAgain : List (ProcessEvent CacheUse Environment Nat) :=
  [.start (.search anyMail)] ++ List.replicate 21 (.perform 3 noThread)

/-- What has come of the processes. -/
def threadCounts (p : Searches) : List (Option (Option (Nat × Bool))) :=
  p.started.map fun process =>
    process.program.result.map fun data => data.map fun data => (data.threads.length, data.cached)

/-- The second search has its page from the cache, and the cache is within its bounds. -/
theorem searched_twice_served : ∃ p,
    Transition.exec (Searches.step Reference.crates) Searches.initial searchedTwice = some p ∧
      threadCounts p = [some (some (1, false)), some (some (1, true)), some none] ∧
      Serves Reference.crates p := by
  have hrun : (Transition.exec (Searches.step Reference.crates) Searches.initial searchedTwice).map
      threadCounts = some [some (some (1, false)), some (some (1, true)), some none] := by
    decide +kernel
  obtain ⟨p, hp, hcounts⟩ := Option.map_eq_some_iff.1 hrun
  exact ⟨p, hp, hcounts, searches_served (Transition.run_of_exec searchedTwice hp)⟩

theorem result_of_threadCounts {p : Searches} {i : Nat} {c : Option (Nat × Bool)}
    (h : (threadCounts p)[i]? = some (some c)) : ∃ process data, p.started[i]? = some process ∧
      process.program.result = some data ∧
        data.map (fun data => (data.threads.length, data.cached)) = c := by
  unfold threadCounts at h
  rw [List.getElem?_map] at h
  obtain ⟨process, hprocess, hresult⟩ := Option.map_eq_some_iff.1 h
  obtain ⟨data, hdata, hcounts⟩ := Option.map_eq_some_iff.1 hresult
  exact ⟨process, data, hprocess, hdata, hcounts⟩

/-- The third search finds the thread gone, though the revision is the same. -/
theorem searched_again_fresh : ∃ p q found data search invalidation,
    Transition.exec (Searches.step Reference.crates) Searches.initial searchedTwice = some p ∧
      Transition.exec (Searches.step Reference.crates) p searchedAgain = some q ∧
        p.started[2]? = some invalidation ∧ q.started[3]? = some found ∧
          found.program.result = some (some data) ∧ data.threads.length = 0 ∧
            Found Reference.crates q.shared.reads (invalidation.began.epoch + 1) 3 search data := by
  have hrun : ((Transition.exec (Searches.step Reference.crates) Searches.initial
      searchedTwice).bind fun p => (Transition.exec (Searches.step Reference.crates) p
        searchedAgain).map fun q => [threadCounts p, threadCounts q]) =
      some [[some (some (1, false)), some (some (1, true)), some none],
        [some (some (1, false)), some (some (1, true)), some none, some (some (0, false))]] := by
    decide +kernel
  obtain ⟨p, hp, hrun⟩ := Option.bind_eq_some_iff.1 hrun
  obtain ⟨q, hq, hcounts⟩ := Option.map_eq_some_iff.1 hrun
  obtain ⟨hcountsp, hcounts⟩ := List.cons.inj hcounts
  have hcountsq := (List.cons.inj hcounts).1
  obtain ⟨invalidation, answer, hk, hreturned, hanswer⟩ := result_of_threadCounts (i := 2)
    (c := none) (by rw [hcountsp]; rfl)
  obtain ⟨found, data, hi, hdata, hnone⟩ := result_of_threadCounts (i := 3)
    (c := some (0, false)) (by rw [hcountsq]; rfl)
  obtain ⟨data, rfl, hlength⟩ := Option.map_eq_some_iff.1 hnone
  obtain rfl := Option.map_eq_none_iff.1 hanswer
  have hstarted : p.started.length = 3 := by
    have hlengths := congrArg List.length hcountsp
    rwa [threadCounts, List.length_map] at hlengths
  obtain ⟨-, search, -, hfresh⟩ := search_after_invalidation_fresh (Transition.run_of_exec _ hp)
    (Transition.run_of_exec _ hq) hk hreturned hstarted.le hi hdata
  exact ⟨p, q, found, data, search, invalidation, hp, hq, hk, hi, hdata,
    (Prod.mk.inj hlength).1, hfresh⟩

end Notm.Ui.SearchCaches

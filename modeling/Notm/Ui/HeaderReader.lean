import Notm.Ui.HeaderBlock

/-!
# Reading the header section of a stream

`read_header_text` reads a message until its header section ends. The reader divides the stream as
it likes: each read returns at least one byte and at most what the buffer holds, or is interrupted
and tried again. What is displayed does not depend on that.

* `ByteReader` — a stream with the answers to its reads, which may be interrupted or fail.
* `readHeaderLoop_reads` — the loop reads the stream in some pieces, or ends with a failure.
* `displayText_text`, `nul_not_mem_fromUtf8Lossy` — the text that is shown of the bytes.
* `header_text_of_any_reads` — which does not depend on the pieces.
-/

namespace Notm.Ui

open Rust

/-! ## Readers -/

/-- How a reader answers the next read. -/
inductive ReadAnswer where
  | interrupted
  /-- An I/O error of another kind. -/
  | failed
  /-- Some bytes, at least one. -/
  | bytes (count : Nat)
  deriving DecidableEq

/-- The rest of a stream and the answers to come. A reader without answers fills the buffer. -/
structure ByteReader where
  remaining : Bytes
  answers : List ReadAnswer

/-- What `Read::read` returns. -/
inductive ReadResult where
  | interrupted
  | failed
  | ok (piece : Bytes)

/-- A read into a buffer of some size. No bytes mean the end of the stream. -/
def ByteReader.read (size : Nat) (reader : ByteReader) : ReadResult × ByteReader :=
  match reader.answers with
  | [] => (.ok (reader.remaining.take size),
    { reader with remaining := reader.remaining.drop size })
  | .interrupted :: answers => (.interrupted, { reader with answers })
  | .failed :: answers => (.failed, { reader with answers })
  | .bytes count :: answers =>
    let count := min (max count 1) size
    (.ok (reader.remaining.take count), { remaining := reader.remaining.drop count, answers })

/-- Every read uses up an answer or some of the stream. -/
def ByteReader.size (reader : ByteReader) : Nat := reader.answers.length + reader.remaining.length

/-! ## Displayed text -/

/-- The second bytes that may follow a first byte, and the length of their sequence. -/
def utf8Sequence (first : UInt8) : Option (UInt8 × UInt8 × Nat) :=
  if 0xC2 ≤ first ∧ first ≤ 0xDF then some (0x80, 0xBF, 2)
  else if first = 0xE0 then some (0xA0, 0xBF, 3)
  else if first = 0xED then some (0x80, 0x9F, 3)
  else if 0xE1 ≤ first ∧ first ≤ 0xEF then some (0x80, 0xBF, 3)
  else if first = 0xF0 then some (0x90, 0xBF, 4)
  else if 0xF1 ≤ first ∧ first ≤ 0xF3 then some (0x80, 0xBF, 4)
  else if first = 0xF4 then some (0x80, 0x8F, 4)
  else none

/-- How many of the bytes after the first belong to its sequence, and how many there should be. -/
def utf8Continuation (first : UInt8) (rest : Bytes) : Nat × Nat :=
  match utf8Sequence first with
  | none => (0, 0)
  | some (low, high, length) =>
    match rest with
    | [] => (0, length - 1)
    | second :: rest =>
      if low ≤ second ∧ second ≤ high then
        (1 + ((rest.take (length - 2)).takeWhile fun byte => 0x80 ≤ byte ∧ byte ≤ 0xBF).length,
          length - 1)
      else (0, length - 1)

/-- `String::from_utf8_lossy`: a replacement character for each maximal part of a sequence that is
not one. -/
def fromUtf8Lossy : Nat → Bytes → Str
  | 0, _ => []
  | _, [] => []
  | fuel + 1, first :: rest =>
    if first < 0x80 then Char.ofNat first.toNat :: fromUtf8Lossy fuel rest
    else
      let (found, needed) := utf8Continuation first rest
      let decoded := if found = needed then Utf8.decode (first :: rest.take found) else none
      decoded.getD ['\uFFFD'] ++ fromUtf8Lossy fuel (rest.drop found)

structure BoundedText where
  text : Str
  bytesRead : Nat
  truncated : Bool
  lossy : Bool
  deriving DecidableEq

def displayText (bytes : Bytes) (truncated : Bool) : BoundedText :=
  let invalidUtf8 := (Utf8.decode bytes).isNone
  let embeddedNul := decide (0 ∈ bytes)
  let text := fromUtf8Lossy bytes.length bytes
  { text := if embeddedNul then replace text '\x00' ['\uFFFD'] else text
    bytesRead := bytes.length
    truncated
    lossy := invalidUtf8 || embeddedNul }

/-- Only a NUL byte is decoded to NUL: in a longer sequence every byte has its high bit set. -/
theorem nul_not_mem_fromUtf8Lossy : ∀ (fuel : Nat) {bytes : Bytes}, 0 ∉ bytes →
    '\x00' ∉ fromUtf8Lossy fuel bytes
  | 0, _, _ => List.not_mem_nil
  | _ + 1, [], _ => List.not_mem_nil
  | fuel + 1, first :: rest, hbytes => by
    obtain ⟨hfirst, hrest⟩ : (0 : UInt8) ≠ first ∧ 0 ∉ rest := by simpa using hbytes
    unfold fromUtf8Lossy
    split
    · rename_i hascii
      refine List.not_mem_cons_of_ne_of_not_mem (fun hnul => hfirst ?_)
        (nul_not_mem_fromUtf8Lossy fuel hrest)
      have hlow : first.toNat < 128 := UInt8.lt_iff_toNat_lt.1 hascii
      have hchar := congrArg Char.toNat hnul
      rw [toNat_ofNat_ascii _ hlow] at hchar
      exact UInt8.toNat_inj.1 hchar
    · dsimp only
      refine List.not_mem_append ?_
        (nul_not_mem_fromUtf8Lossy fuel fun hmem => hrest (List.mem_of_mem_drop hmem))
      -- What is decoded encodes to the bytes of the sequence, and NUL would be one of them.
      cases hdecoded : if (utf8Continuation first rest).1 = (utf8Continuation first rest).2 then
          Utf8.decode (first :: rest.take (utf8Continuation first rest).1) else none with
      | none => decide
      | some s =>
        intro hnul
        have hdecode := (Option.ite_none_right_eq_some.1 hdecoded).2
        have hmem := Utf8.mem_encode_of_ascii (s := s) hnul (by decide)
        rw [Utf8.encode_of_decode hdecode] at hmem
        exact (List.mem_cons.1 hmem).elim hfirst fun htail => hrest (List.mem_of_mem_take htail)

/-- What `display_text` shows, without its question whether there is a NUL to replace. -/
theorem displayText_text (bytes : Bytes) (truncated : Bool) :
    (displayText bytes truncated).text =
      replace (fromUtf8Lossy bytes.length bytes) '\x00' ['\uFFFD'] := by
  unfold displayText
  by_cases hnul : 0 ∈ bytes
  · simp [hnul]
  · simp [hnul, replace_of_not_mem (nul_not_mem_fromUtf8Lossy _ hnul)]

/-! ## The function -/

/-- `MessageIoError::Io`. -/
inductive MessageIoError where
  | io
  deriving DecidableEq

def chunkSize : Nat := 8 * 1024

/-- The read of one more byte. -/
def hasMore (reader : ByteReader) : Nat → Option (Except MessageIoError Bool)
  | 0 => none
  | fuel + 1 =>
    match reader.read 1 with
    | (.ok piece, _) => some (.ok (piece ≠ []))
    | (.interrupted, reader) => hasMore reader fuel
    | (.failed, _) => some (.error .io)

/-- The loop of `read_header_text_with_limit`: the bytes to display and whether more follow. -/
def readHeaderLoop (limit : Nat) (retained : Bytes) (reader : ByteReader) :
    Nat → Option (Except MessageIoError (Bytes × Bool))
  | 0 => none
  | fuel + 1 =>
    match reader.read chunkSize with
    | (.interrupted, reader) => readHeaderLoop limit retained reader fuel
    | (.failed, _) => some (.error .io)
    | (.ok piece, reader) =>
      if piece = [] then some (.ok (retained, false))
      else
        let keep := min (limit - retained.length) piece.length
        let retained := retained ++ piece.take keep
        match headerEnd retained with
        | some stop => some (.ok (retained.take stop, false))
        | none =>
          if keep < piece.length then some (.ok (retained, true))
          else if retained.length = limit then
            (hasMore reader (reader.size + 1)).map fun more => more.map fun more => (retained, more)
          else readHeaderLoop limit retained reader fuel

def readHeaderTextWithLimit (reader : ByteReader) (limit : Nat) :
    Option (Except MessageIoError BoundedText) :=
  (readHeaderLoop limit [] reader (reader.size + 1)).map fun result =>
    result.map fun (bytes, truncated) => displayText bytes truncated

def headerTextLimit : Nat := 1024 * 1024

def readHeaderText (reader : ByteReader) : Option (Except MessageIoError BoundedText) :=
  readHeaderTextWithLimit reader headerTextLimit

/-! ## One read -/

variable {reader next : ByteReader} {piece : Bytes} {size : Nat}

/-- What a read leaves behind: it takes a piece off the stream, which is empty only at its end. -/
structure ByteReader.Took (reader : ByteReader) (piece : Bytes) (next : ByteReader) : Prop where
  stream : piece ++ next.remaining = reader.remaining
  progress : piece ≠ [] → next.size < reader.size
  finished : piece = [] → reader.remaining = []
  failures : ReadAnswer.failed ∈ next.answers → ReadAnswer.failed ∈ reader.answers

theorem size_drop_lt {remaining : Bytes} {answers answers' : List ReadAnswer} {count : Nat}
    (hpiece : remaining.take count ≠ []) (hanswers : answers'.length ≤ answers.length) :
    (ByteReader.mk (remaining.drop count) answers').size <
    (ByteReader.mk remaining answers).size := by
  have hcount : 0 < count ∧ 0 < remaining.length := by
    by_contra hzero
    refine hpiece (List.take_eq_nil_iff.2 ?_)
    by_cases hempty : remaining = []
    · exact Or.inr hempty
    · have hpos := List.length_pos_of_ne_nil hempty
      exact Or.inl (by omega)
  show answers'.length + (remaining.drop count).length < answers.length + remaining.length
  rw [List.length_drop]
  omega

theorem ByteReader.took_of_read (hsize : 0 < size) (h : reader.read size = (.ok piece, next)) :
    reader.Took piece next := by
  obtain ⟨remaining, answers⟩ := reader
  have htake : ∀ (count : Nat) (answers' : List ReadAnswer), 0 < count →
      answers'.length ≤ answers.length →
        (ReadAnswer.failed ∈ answers' → ReadAnswer.failed ∈ answers) →
      (ByteReader.mk remaining answers).Took (remaining.take count)
        ⟨remaining.drop count, answers'⟩ := by
    intro count answers' hcount hlength hfailures
    refine ⟨List.take_append_drop count remaining, fun hpiece => size_drop_lt hpiece hlength,
      fun hempty => ?_, hfailures⟩
    rcases List.take_eq_nil_iff.1 hempty with hzero | hnil
    · exact absurd hzero (by omega)
    · exact hnil
  unfold ByteReader.read at h
  cases answers with
  | nil =>
    obtain ⟨hpiece, rfl⟩ := Prod.mk.inj h
    obtain rfl := ReadResult.ok.inj hpiece
    exact htake size [] hsize (le_refl 0) id
  | cons answer answers =>
    cases answer with
    | interrupted => exact absurd (Prod.mk.inj h).1 (by simp)
    | failed => exact absurd (Prod.mk.inj h).1 (by simp)
    | bytes count =>
      obtain ⟨hpiece, rfl⟩ := Prod.mk.inj h
      obtain rfl := ReadResult.ok.inj hpiece
      exact htake _ answers (by omega) (by simp) (List.mem_cons_of_mem _)

theorem ByteReader.interrupted_of_read (h : reader.read size = (.interrupted, next)) :
    next.remaining = reader.remaining ∧ next.size < reader.size ∧
      (ReadAnswer.failed ∈ next.answers → ReadAnswer.failed ∈ reader.answers) := by
  obtain ⟨remaining, answers⟩ := reader
  unfold ByteReader.read at h
  cases answers with
  | nil => exact absurd (Prod.mk.inj h).1 (by simp)
  | cons answer answers =>
    cases answer with
    | interrupted =>
      obtain rfl := (Prod.mk.inj h).2
      refine ⟨rfl, ?_, List.mem_cons_of_mem _⟩
      show answers.length + remaining.length < (answers.length + 1) + remaining.length
      omega
    | failed => exact absurd (Prod.mk.inj h).1 (by simp)
    | bytes count => exact absurd (Prod.mk.inj h).1 (by simp)

theorem ByteReader.failed_of_read (h : reader.read size = (.failed, next)) :
    ReadAnswer.failed ∈ reader.answers := by
  obtain ⟨remaining, answers⟩ := reader
  unfold ByteReader.read at h
  cases answers with
  | nil => exact absurd (Prod.mk.inj h).1 (by simp)
  | cons answer answers =>
    cases answer with
    | interrupted => exact absurd (Prod.mk.inj h).1 (by simp)
    | failed => exact List.mem_cons_self
    | bytes count => exact absurd (Prod.mk.inj h).1 (by simp)

/-! ## The loops -/

/-- A value, or the error of a read that failed. -/
def ReadsAs {α : Type} (reader : ByteReader) (value : α)
    (result : Option (Except MessageIoError α)) :
    Prop :=
  result = some (.ok value) ∨ (ReadAnswer.failed ∈ reader.answers ∧ result = some (.error .io))

theorem ReadsAs.mono {α : Type} {value : α} {result : Option (Except MessageIoError α)}
    (h : ReadsAs next value result)
    (hfailures : ReadAnswer.failed ∈ next.answers → ReadAnswer.failed ∈ reader.answers) :
    ReadsAs reader value result :=
  h.imp_right fun hfailed => ⟨hfailures hfailed.1, hfailed.2⟩

theorem ReadsAs.map {α β : Type} {value : α} {result : Option (Except MessageIoError α)}
    (h : ReadsAs reader value result) (f : α → β) :
    ReadsAs reader (f value) (result.map fun result => result.map f) := by
  rcases h with h | ⟨hfailed, h⟩
  · exact Or.inl (by rw [h]; rfl)
  · exact Or.inr ⟨hfailed, by rw [h]; rfl⟩

theorem hasMore_reads {fuel : Nat} (h : reader.size < fuel) :
    ReadsAs reader (decide (reader.remaining ≠ [])) (hasMore reader fuel) := by
  induction fuel generalizing reader with
  | zero => exact absurd h (Nat.not_lt_zero _)
  | succ fuel ih =>
    unfold hasMore
    split
    · next piece next hread =>
      have htook := ByteReader.took_of_read (by omega) hread
      have hpiece : piece = [] ↔ reader.remaining = [] := by
        refine ⟨htook.finished, fun hnil => ?_⟩
        have hstream := htook.stream
        rw [hnil] at hstream
        exact (List.append_eq_nil_iff.1 hstream).1
      exact Or.inl (congrArg (fun b => some (Except.ok b)) (decide_eq_decide.2 (not_congr hpiece)))
    · next next hread =>
      obtain ⟨hremaining, hsize, hfailures⟩ := ByteReader.interrupted_of_read hread
      rw [← hremaining]
      exact (ih (by omega)).mono hfailures
    · next next hread => exact Or.inr ⟨ByteReader.failed_of_read hread, rfl⟩

/-- The rest of a stream in one piece. -/
def wholePiece (remaining : Bytes) : List Bytes := if remaining = [] then [] else [remaining]

theorem wholePiece_nonempty (remaining : Bytes) : ∀ piece ∈ wholePiece remaining, piece ≠ [] := by
  unfold wholePiece
  split
  · exact fun _ hmem => absurd hmem List.not_mem_nil
  · next hne => exact fun piece hmem => List.mem_singleton.1 hmem ▸ hne

theorem wholePiece_flatten (remaining : Bytes) : (wholePiece remaining).flatten = remaining := by
  unfold wholePiece
  split
  · next hnil => exact hnil.symm
  · exact List.flatten_singleton

theorem wholePiece_isEmpty (remaining : Bytes) :
    (!(wholePiece remaining).isEmpty) = decide (remaining ≠ []) := by
  unfold wholePiece
  split
  · next hnil => simp [hnil]
  · next hne => simp [hne]

/-- The loop reads the stream in some pieces. -/
theorem readHeaderLoop_reads {limit fuel : Nat} {retained : Bytes} (h : reader.size < fuel) :
    ∃ pieces, (∀ piece ∈ pieces, piece ≠ []) ∧ pieces.flatten = reader.remaining ∧
      ReadsAs reader (readHeaderPieces limit retained pieces)
        (readHeaderLoop limit retained reader fuel) := by
  induction fuel generalizing reader retained with
  | zero => exact absurd h (Nat.not_lt_zero _)
  | succ fuel ih =>
    unfold readHeaderLoop
    split
    · next next hread =>
      obtain ⟨hremaining, hsize, hfailures⟩ := ByteReader.interrupted_of_read hread
      obtain ⟨pieces, hpieces, hflatten, hreads⟩ :=
        @ih next retained (by omega)
      exact ⟨pieces, hpieces, hflatten.trans hremaining, hreads.mono hfailures⟩
    · next next hread =>
      -- Whatever the pieces, the error is returned.
      exact ⟨wholePiece reader.remaining, wholePiece_nonempty _, wholePiece_flatten _,
        Or.inr ⟨ByteReader.failed_of_read hread, rfl⟩⟩
    · next piece next hread =>
      have htook := ByteReader.took_of_read (by decide) hread
      by_cases hempty : piece = []
      · rw [if_pos hempty]
        exact ⟨[], fun _ hmem => absurd hmem List.not_mem_nil, (htook.finished hempty).symm,
          Or.inl rfl⟩
      · rw [if_neg hempty]
        have hsize := htook.progress hempty
        have hpieces : ∀ {rest : List Bytes}, (∀ piece ∈ rest, piece ≠ []) →
            rest.flatten = next.remaining → (∀ piece' ∈ piece :: rest, piece' ≠ []) ∧
              (piece :: rest).flatten = reader.remaining := by
          intro rest hrest hflatten
          refine ⟨List.forall_mem_cons.2 ⟨hempty, hrest⟩, ?_⟩
          rw [List.flatten_cons, hflatten, htook.stream]
        have hwhole := hpieces (wholePiece_nonempty next.remaining) (wholePiece_flatten _)
        have hstep : ∀ rest, readHeaderPieces limit retained (piece :: rest) =
            match headerEnd (retained ++
              piece.take (min (limit - retained.length) piece.length)) with
            | some stop => ((retained ++
                piece.take (min (limit - retained.length) piece.length)).take stop, false)
            | none =>
              if min (limit - retained.length) piece.length < piece.length then
                (retained ++ piece.take (min (limit - retained.length) piece.length), true)
              else if (retained ++
                  piece.take (min (limit - retained.length) piece.length)).length = limit then
                (retained ++ piece.take (min (limit - retained.length) piece.length),
                  !rest.isEmpty)
              else readHeaderPieces limit
                (retained ++ piece.take (min (limit - retained.length) piece.length)) rest :=
          fun _ => rfl
        dsimp only
        set kept := retained ++ piece.take (min (limit - retained.length) piece.length)
        cases hend : headerEnd kept with
        | some stop =>
          refine ⟨piece :: wholePiece next.remaining, hwhole.1, hwhole.2, Or.inl ?_⟩
          rw [hstep, hend]
        | none =>
          dsimp only
          split_ifs with hcut hexact
          · refine ⟨piece :: wholePiece next.remaining, hwhole.1, hwhole.2, Or.inl ?_⟩
            rw [hstep, hend]
            dsimp only
            rw [if_pos hcut]
          · refine ⟨piece :: wholePiece next.remaining, hwhole.1, hwhole.2, ?_⟩
            rw [hstep, hend]
            dsimp only
            rw [if_neg hcut, if_pos hexact, wholePiece_isEmpty]
            exact ((hasMore_reads (Nat.lt_succ_self _)).map _).mono htook.failures
          · obtain ⟨rest, hrest, hflatten, hreads⟩ :=
              @ih next kept (by omega)
            obtain ⟨hall, hstream⟩ := hpieces hrest hflatten
            refine ⟨piece :: rest, hall, hstream, ?_⟩
            rw [hstep, hend]
            dsimp only
            rw [if_neg hcut, if_neg hexact]
            exact hreads.mono htook.failures

/-! ## The header text -/

/-- A limit of zero shows nothing. -/
theorem readHeaderPieces_zero {pieces : List Bytes} (hpieces : ∀ piece ∈ pieces, piece ≠ []) :
    readHeaderPieces 0 [] pieces = headerText 0 pieces.flatten := by
  cases pieces with
  | nil => rfl
  | cons piece rest =>
    have hpos := List.length_pos_of_ne_nil (hpieces piece List.mem_cons_self)
    have hcut : min (0 - ([] : Bytes).length) piece.length < piece.length := by
      rw [List.length_nil]
      omega
    have hkept : [] ++ piece.take (min (0 - ([] : Bytes).length) piece.length) = [] := by
      rw [List.length_nil, Nat.zero_sub, Nat.zero_min, List.take_zero, List.append_nil]
    have hlong : 0 < (piece :: rest).flatten.length := by
      rw [List.flatten_cons, List.length_append]
      omega
    have hnone : headerEnd [] = none := by decide
    unfold readHeaderPieces headerText
    dsimp only
    rw [hkept, List.take_zero, hnone]
    dsimp only
    rw [if_pos hcut, decide_eq_true hlong]

theorem readHeaderPieces_start {limit : Nat} {pieces : List Bytes}
    (hpieces : ∀ piece ∈ pieces, piece ≠ []) :
    readHeaderPieces limit [] pieces = headerText limit pieces.flatten := by
  by_cases hlimit : 0 < limit
  · exact readHeaderPieces_nil_eq hlimit hpieces
  · obtain rfl : limit = 0 := by omega
    exact readHeaderPieces_zero hpieces

/-- What is shown of a stream: up to the first blank line within the limit, else all of the limit,
truncated where the stream is longer. -/
inductive ShownHeader (limit : Nat) (stream : Bytes) : Bytes × Bool → Prop where
  | upTo {stop : Nat} (h : FirstIndex (BlankAt (stream.take limit)) 0 (some stop)) :
      ShownHeader limit stream (stream.take stop, false)
  | whole (h : ∀ i, ¬ BlankAt (stream.take limit) i) :
      ShownHeader limit stream (stream.take limit, decide (limit < stream.length))

theorem headerText_shown (limit : Nat) (stream : Bytes) :
    ShownHeader limit stream (headerText limit stream) := by
  have hfirst := headerEnd_first (stream.take limit)
  unfold headerText
  cases hend : headerEnd (stream.take limit) with
  | some stop => exact ShownHeader.upTo (hend ▸ hfirst)
  | none =>
    rw [hend] at hfirst
    exact ShownHeader.whole fun i => hfirst i (Nat.zero_le i)

/-- **The header text of a stream.** However the reader divides the stream and however often it is
interrupted, the same is shown of it, unless a read fails: the bytes up to the first blank line
within the limit, or all that the limit lets through, and then the flag of truncation is set exactly
where the stream goes on. The text is the lossy decoding of these bytes with `U+FFFD` for every NUL,
whether or not `display_text` looks for one. -/
theorem header_text_of_any_reads (limit : Nat) (stream : Bytes) :
    ∃ shown result, ShownHeader limit stream shown ∧ result = displayText shown.1 shown.2 ∧
      result.text = replace (fromUtf8Lossy shown.1.length shown.1) '\x00' ['\uFFFD'] ∧
      result.bytesRead = shown.1.length ∧ result.truncated = shown.2 ∧
      ∀ answers,
        readHeaderTextWithLimit ⟨stream, answers⟩ limit = some (.ok result) ∨
          (ReadAnswer.failed ∈ answers ∧
            readHeaderTextWithLimit ⟨stream, answers⟩ limit = some (.error .io)) := by
  refine ⟨headerText limit stream, _, headerText_shown limit stream, rfl, displayText_text _ _,
    rfl, rfl, fun answers => ?_⟩
  -- The reads are some division of the stream into nonempty pieces, and no division matters.
  obtain ⟨pieces, hpieces, hflatten, hreads⟩ :=
    @readHeaderLoop_reads ⟨stream, answers⟩ limit _ [] (Nat.lt_succ_self _)
  rw [readHeaderPieces_start hpieces, hflatten] at hreads
  exact hreads.map fun shown => displayText shown.1 shown.2

/-- One byte at a time, with an interruption where the blank line is. -/
example : readHeaderTextWithLimit
    ⟨[0x61, 0x0A, 0x0A, 0x62], [.bytes 1, .bytes 1, .interrupted, .bytes 1]⟩ 8 =
      some (.ok ⟨['a'], 1, false, false⟩) := by
  decide

end Notm.Ui

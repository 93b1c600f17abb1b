import ChunkedFile.Proofs.Stream.Opening

/-!
# What an opened range hands out

`Session.Shows` says that the window is the part of the file that follows what was handed out. A
store that answers each call with an error, with the right payload or with one of a wrong size
cannot make a read break this, so the reads of a range bring its bytes in order, up to its end.
-/

namespace ChunkedFile

/-- The store's answer is an error, the right payload, or a payload of a wrong size. -/
def Step.Honest (payload : String → ByteArray) : Step → Prop
  | .fetch call (.ok bytes) =>
    bytes = payload call.address ∨ bytes.size ≠ (payload call.address).size
  | _ => True

/-- The part of a file that lies in a range. -/
def ByteRange.part (range : ByteRange) (file : ByteArray) : ByteArray :=
  file.extract range.start.toNat (range.start.toNat + range.effectiveLength file.size)

namespace Plan

/-- The bytes that a chunk has in the file; an empty one has none, whatever is stored for it. -/
def piece (payload : String → ByteArray) (chunk : ChunkRef) : ByteArray :=
  if chunk.size = 0 then ByteArray.empty else payload chunk.address

/-- The payloads of a plan's chunks, one after the other. -/
def content (plan : Plan) (payload : String → ByteArray) : ByteArray :=
  joined (plan.chunks.map (piece payload))

/-- What is stored for a chunk that is not empty has the recorded size. -/
def StoredIn (plan : Plan) (payload : String → ByteArray) : Prop :=
  ∀ chunk ∈ plan.chunks, chunk.size ≠ 0 → (payload chunk.address).size = chunk.size.toNat

instance (plan : Plan) (payload : String → ByteArray) : Decidable (plan.StoredIn payload) :=
  inferInstanceAs (Decidable (∀ chunk ∈ plan.chunks, _))

variable {plan : Plan} {payload : String → ByteArray}

/-- Where nothing is stored for empty chunks, the file is all that is stored. -/
theorem content_eq_joined (h : ∀ chunk ∈ plan.chunks,
    (payload chunk.address).size = chunk.size.toNat) :
    plan.content payload = joined (plan.chunks.map fun chunk => payload chunk.address) := by
  rw [content]
  congr 1
  refine List.map_congr_left fun chunk hchunk => ?_
  rw [piece]
  split
  · rename_i hzero
    have hsize := h chunk hchunk
    rw [hzero] at hsize
    exact (ByteArray.size_eq_zero_iff.mp hsize).symm
  · rfl

/-- What is stored of a chunk has its size. -/
theorem StoredIn.size_piece (h : plan.StoredIn payload) {chunk : ChunkRef}
    (hchunk : chunk ∈ plan.chunks) : (piece payload chunk).size = chunk.size.toNat := by
  rw [piece]
  split
  · rename_i hzero
    rw [hzero]
    rfl
  · rename_i hsize
    exact h chunk hchunk hsize

/-- What is stored of some of the chunks has their sizes. -/
private theorem StoredIn.map_size_piece (h : plan.StoredIn payload) {chunks : List ChunkRef}
    (hsub : ∀ chunk ∈ chunks, chunk ∈ plan.chunks) :
    (chunks.map (piece payload)).map ByteArray.size =
      (chunks.map ChunkRef.size).map UInt64.toNat := by
  rw [List.map_map, List.map_map]
  exact List.map_congr_left fun chunk hchunk => h.size_piece (hsub chunk hchunk)

/-- What is stored has the exact size of the plan. -/
theorem StoredIn.size_content (h : plan.StoredIn payload) :
    (plan.content payload).size = plan.exactSize := by
  rw [content, size_joined, h.map_size_piece fun _ hchunk => hchunk]
  rfl

/-- The bytes of a chunk are in the file at the chunk's offset. -/
theorem StoredIn.extract_content (h : plan.StoredIn payload) {i : Nat} {chunk : ChunkRef}
    (hchunk : plan.chunks[i]? = some chunk) :
    (plan.content payload).extract (plan.offset i) (plan.offset i + chunk.size.toNat) =
      piece payload chunk := by
  have hpiece : (plan.chunks.map (piece payload))[i]? = some (piece payload chunk) := by
    rw [List.getElem?_map, hchunk]
    rfl
  have hoffset : (((plan.chunks.map (piece payload)).take i).map ByteArray.size).sum =
      plan.offset i := by
    rw [← List.map_take, h.map_size_piece fun _ hchunk => List.mem_of_mem_take hchunk,
      List.map_take, List.map_take]
    rfl
  have hextract := extract_joined hpiece
  rw [hoffset, h.size_piece (List.mem_of_getElem? hchunk)] at hextract
  exact hextract

end Plan

namespace Window

variable {w : Window} {n : Nat}

/-- The window on a chunk holds what is not skipped. -/
theorem rest_ofChunk (bytes : ByteArray) (skip : Nat) :
    (ofChunk bytes skip).rest = bytes.extract skip bytes.size := by
  simp only [rest, ofChunk]
  by_cases hskip : skip ≤ bytes.size
  · rw [Nat.min_eq_left hskip]
  · rw [Nat.min_eq_right (by omega), ByteArray.extract_same, eq_comm,
      ByteArray.extract_eq_empty_iff]
    omega

/-- What is taken out of a window is the first of its rest. -/
theorem take_fst_eq (w : Window) (n : Nat) : (w.take n).1 = w.rest.extract 0 n := by
  rw [rest, ByteArray.extract_extract, Nat.add_zero, take]

/-- What is left in a window is the rest behind that. -/
theorem rest_take_snd (w : Window) (n : Nat) :
    (w.take n).2.rest = w.rest.extract (w.take n).1.size w.size := by
  have hused := w.used_le
  rw [rest, rest, ByteArray.extract_extract, size_take_fst, size, take]
  congr 1 <;> simp only <;> omega

end Window

/-- What is stored for the chunks of a table is in the file at their offsets. -/
def ChunkTable.Holds (table : ChunkTable) (payload : String → ByteArray) (file : ByteArray) :
    Prop :=
  ∀ i address, table.addressAt? i = some address → table.index.sizeAt i ≠ 0 →
    (payload address).size = table.index.sizeAt i ∧
      file.extract (table.index.offset i) (table.index.offset i + table.index.sizeAt i) =
        payload address

/-- The table of a plan holds the plan's file. -/
theorem ChunkTable.Lists.holds {table : ChunkTable} {plan : Plan} {payload : String → ByteArray}
    (h : table.Lists plan) (hstored : plan.StoredIn payload) :
    table.Holds payload (plan.content payload) := by
  intro i address haddress hsize
  obtain ⟨chunk, hchunk, rfl, hsizeAt⟩ := h.getElem?_chunks haddress
  have hne : chunk.size ≠ 0 := by
    intro hzero
    rw [hsizeAt, hzero] at hsize
    exact hsize rfl
  rw [hsizeAt, h.offset_eq, hstored.extract_content hchunk, Plan.piece, if_neg hne]
  exact ⟨hstored chunk (List.mem_of_getElem? hchunk) hne, rfl⟩

namespace Session

variable {s t : Session} {n i size : Nat} {address : String} {steps : List Step}
  {result : Except Error ByteArray} {bytes file : ByteArray} {payload : String → ByteArray}

/-- What is in the window follows in the file what was handed out. -/
def Shows (s : Session) (file : ByteArray) : Prop :=
  s.window.rest =
    file.extract (s.start + s.delivered) (s.start + s.delivered + s.window.size)

namespace Shows

/-- Settling does not touch the window. -/
theorem settle (h : s.Shows file) : s.settle.Shows file := by
  rw [Shows, settle_window, settle_start, settle_delivered]
  exact h

/-- What is handed out is the next part of the file, and the rest stays in the window. -/
theorem deliver (h : s.Shows file) (n : Nat) :
    (s.deliver n).2.Shows file ∧ (s.deliver n).1 =
      file.extract (s.start + s.delivered) (s.start + s.delivered + (s.deliver n).1.size) := by
  have hle := s.window.size_take_snd n
  rw [Shows] at h
  constructor
  · rw [Shows]
    simp only [Session.deliver]
    rw [Window.rest_take_snd, h, ByteArray.extract_extract]
    congr 1 <;> omega
  · have hsize := s.window.size_take_fst n
    simp only [Session.deliver]
    rw [hsize, Window.take_fst_eq, h, ByteArray.extract_extract]
    congr 1
    omega

/-- The right payload of the needed chunk brings the next part of the file into the window. -/
theorem accept (hstands : s.Stands) (hholds : s.table.Holds payload file)
    (hneed : s.settle.need = .chunk i size address)
    (hhonest : bytes = payload address ∨ bytes.size ≠ (payload address).size)
    (haccept : s.settle.accept i size bytes = .ok t) : t.Shows file := by
  obtain ⟨-, -, hsize, haddress, hlt, hat⟩ := hstands.of_need_chunk hneed
  obtain ⟨hbytes, rfl⟩ := accept_eq_ok_iff.mp haccept
  obtain ⟨hstored, hextract⟩ := hholds i address haddress (by omega)
  have hright : bytes = payload address := by
    rcases hhonest with hright | hwrong
    · exact hright
    · exact absurd (by omega) hwrong
  rw [Shows]
  simp only [settle_start, settle_delivered, Window.size_ofChunk, Window.rest_ofChunk,
    hstands.settle.2.1]
  rw [hat, hright, hstored, ← hextract, ByteArray.extract_extract]
  congr 1
  omega

end Shows

/-- What a fetch from an honest store brings is right or of a wrong size. -/
private theorem honest_of_fetch {call : Call} {policy : RetryPolicy}
    (hfetch : (Program.backend.fetchRetrying policy call).Returns steps (.ok bytes))
    (hhonest : ∀ step ∈ steps, step.Honest payload) :
    bytes = payload call.address ∨ bytes.size ≠ (payload call.address).size := by
  have hpayloads := Backend.fetchRetrying_payloads hfetch
  have hmem : Step.fetch call (.ok bytes) ∈ steps := by
    rw [← mem_payloads_iff, hpayloads, brought]
    exact List.mem_singleton_self _
  exact hhonest _ hmem

/-- A read from an honest store brings the next part of the file or nothing. -/
theorem ReadRun.shows (h : ReadRun s n steps result t) (hstands : s.Stands)
    (hholds : s.table.Holds payload file) (hshows : s.Shows file)
    (hhonest : ∀ step ∈ steps, step.Honest payload) :
    t.Shows file ∧ bytesOf result =
      file.extract (s.start + s.delivered) (s.start + s.delivered + (bytesOf result).size) := by
  have hnone : ByteArray.empty = file.extract (s.start + s.delivered)
      (s.start + s.delivered + ByteArray.empty.size) := by
    rw [ByteArray.size_empty, Nat.add_zero, ByteArray.extract_same]
  cases h with
  | closed | nothing => exact ⟨hshows, hnone⟩
  | overrun | ended | failed | refused => exact ⟨hshows.settle, hnone⟩
  | buffered =>
    have hdeliver := hshows.settle.deliver n
    rw [settle_start, settle_delivered] at hdeliver
    exact hdeliver
  | fetched _ _ i size address fetching bytes taken hneed hfetch haccept =>
    have hright := honest_of_fetch hfetch fun step hstep =>
      hhonest step (List.mem_append_left _ hstep)
    have hdeliver := (Shows.accept hstands hholds hneed hright haccept).deliver n
    obtain ⟨-, hstart, hdelivered, -⟩ := frame_of_accept haccept
    rw [hstart, hdelivered] at hdeliver
    exact hdeliver

end Session

namespace RangeStream

variable {first stream : RangeStream} {rounds : List Round} {stop : Nat} {file : ByteArray}
  {payload : String → ByteArray}

/-- Reads from an honest store bring the file from where the stream stood. -/
theorem Reads.shows (hreads : first.Reads rounds stream) (hwithin : first.Within stop)
    (hholds : first.session.table.Holds payload file) (hshows : first.session.Shows file)
    (hhonest : ∀ round ∈ rounds, ∀ step ∈ round.steps, step.Honest payload) :
    stream.session.Shows file ∧ delivered rounds =
      file.extract first.offset (first.offset + (delivered rounds).size) := by
  induction hreads with
  | nil =>
    refine ⟨hshows, ?_⟩
    rw [delivered_nil, ByteArray.size_empty, Nat.add_zero, ByteArray.extract_same]
  | @snoc rounds stream n steps result next before read ih =>
    obtain ⟨hbefore, hbrought⟩ := ih fun round hround =>
      hhonest round (List.mem_append_left _ hround)
    obtain ⟨hthere, htable, -, -, hoffset⟩ := before.within hwithin
    have hround : ∀ step ∈ steps, step.Honest payload :=
      hhonest _ (List.mem_append_right _ (List.mem_singleton_self _))
    have hnext : next.session.Shows file ∧ bytesOf result = file.extract stream.offset
        (stream.offset + (bytesOf result).size) := by
      rcases read_returns read with ⟨-, -, rfl, rfl⟩ | ⟨-, session, hrun, rfl⟩
      · refine ⟨hbefore, ?_⟩
        rw [bytesOf, ByteArray.size_empty, Nat.add_zero, ByteArray.extract_same]
      · exact hrun.shows hthere.placed.stands (by rw [htable]; exact hholds) hbefore hround
    refine ⟨hnext.1, ?_⟩
    rw [delivered_append_singleton, ByteArray.size_append, ← Nat.add_assoc, ← hoffset]
    rw [ByteArray.extract_eq_extract_append_extract stream.offset (by omega) (by omega), ← hnext.2]
    rw [hoffset, ← hbrought]

end RangeStream

section

variable {plan : Plan} {payload : String → ByteArray}

/-- The size of a link is that of the file. -/
theorem Link.size_eq_size_content {link : Link} (hlists : link.table.Lists plan)
    (hfits : plan.Fits) (hstored : plan.StoredIn payload) :
    link.size = (plan.content payload).size := by
  rw [hstored.size_content]
  exact hlists.total_eq hfits

/-- What was brought is the part of the range up to where the stream stands. -/
private theorem Link.part_eq {link : Link} {range : ByteRange} {opening : List Step}
    {opened : Opened} {rounds : List Round} {stream : RangeStream}
    (hopen : (link.openRange Program.backend range).Returns opening (.ok opened))
    (hlists : link.table.Lists plan) (hfits : plan.Fits) (hstored : plan.StoredIn payload)
    (hreads : opened.stream.Reads rounds stream)
    (hhonest : ∀ round ∈ rounds, ∀ step ∈ round.steps, step.Honest payload) :
    ∃ stop, stream.Within stop ∧ stop ≤ (plan.content payload).size ∧
      range.part (plan.content payload) =
        delivered rounds ++ (plan.content payload).extract stream.offset stop := by
  have hsize := Link.size_eq_size_content hlists hfits hstored
  obtain ⟨hstream, -⟩ := Link.openRange_returns hopen
  obtain ⟨hwithin, htable, -, -, hoffset, hwindow⟩ := Link.openStream_within hstream hlists hfits
  have hholds : opened.stream.session.table.Holds payload (plan.content payload) := by
    rw [htable]
    exact hlists.holds hstored
  have hshows : opened.stream.session.Shows (plan.content payload) := by
    rw [Session.Shows, hwindow, Window.size_empty, Nat.add_zero, ByteArray.extract_same]
    rfl
  obtain ⟨-, hdelivered⟩ := hreads.shows hwithin hholds hshows hhonest
  obtain ⟨hthere, -, -, -, hat⟩ := hreads.within hwithin
  rw [hoffset] at hdelivered hat
  have hbefore := hthere.offset_le
  have hstop := hwithin.stop_le
  rw [Session.fileSize, htable, hlists.sizes_eq, ← Plan.exactSize, ← hstored.size_content] at hstop
  refine ⟨_, hthere, hstop, ?_⟩
  rw [ByteRange.part, ← hsize,
    ByteArray.extract_eq_extract_append_extract stream.offset (by omega) hbefore, hat,
    ← hdelivered]

/-- Whatever an honest store answers, the reads of an opened range bring its bytes in order, and a
read for some bytes brings none exactly where the whole range has been brought. -/
theorem Plan.range_delivered (hfits : plan.Fits) (hstored : plan.StoredIn payload) :
    ∃ link, Link.ofPlan plan = .ok link ∧ link.size = (plan.content payload).size ∧
      ∀ policy verify range opening opened,
        (Link.openRange Program.backend { link with policy, verify } range).Returns opening
          (.ok opened) →
        ∀ rounds stream, opened.stream.Reads rounds stream →
          (∀ round ∈ rounds, ∀ step ∈ round.steps, step.Honest payload) →
          (∃ rest, delivered rounds ++ rest = range.part (plan.content payload)) ∧
            ∀ n steps result next, n ≠ 0 →
              (stream.read Program.backend n).Returns steps (result, next) →
              (result = .ok ByteArray.empty ↔
                delivered rounds = range.part (plan.content payload)) := by
  obtain ⟨link, hlink, hlists, -⟩ := Link.exists_ofPlan hfits
  refine ⟨link, hlink, Link.size_eq_size_content hlists hfits hstored, ?_⟩
  intro policy verify range opening opened hopen rounds stream hreads hhonest
  obtain ⟨stop, hwithin, hstop, hpart⟩ :=
    Link.part_eq hopen hlists hfits hstored hreads hhonest
  refine ⟨⟨_, hpart.symm⟩, ?_⟩
  intro n steps result next hn hread
  have hle := hwithin.offset_le
  rw [hwithin.eq_ok_empty_iff hn hread, hpart]
  constructor
  · intro hend
    rw [hend, ByteArray.extract_same, ByteArray.append_empty]
  · intro hall
    have hsizes := congrArg ByteArray.size hall
    rw [ByteArray.size_append, ByteArray.size_extract] at hsizes
    omega

end

/-- What is stored for the three bytes; something lies at the address of the empty chunk, too. -/
def threeBytesStored (address : String) : ByteArray :=
  if address = "a" then ⟨#[7, 8]⟩ else ⟨#[9]⟩

/-- The range of the last two bytes after a cancelled read and one that brought a byte. -/
theorem range_delivered_threeBytes :
    threeBytes.Fits ∧ threeBytes.StoredIn threeBytesStored ∧
      threeBytesTail.stream.Reads threeBytesRounds threeBytesLast ∧
      (∀ round ∈ threeBytesRounds, ∀ step ∈ round.steps, step.Honest threeBytesStored) ∧
      delivered threeBytesRounds = ⟨#[8]⟩ ∧
      ∃ rest, delivered threeBytesRounds ++ rest =
        ByteRange.part ⟨1, none⟩ (threeBytes.content threeBytesStored) := by
  have hfits : threeBytes.Fits := by decide
  have hstored : threeBytes.StoredIn threeBytesStored := by decide
  have hhonest : ∀ round ∈ threeBytesRounds, ∀ step ∈ round.steps,
      step.Honest threeBytesStored := by
    simp [threeBytesRounds, Step.Honest, threeBytesStored]
  obtain ⟨link, hlink, -, hread⟩ := Plan.range_delivered hfits hstored
  rw [threeBytes_ofPlan, Except.ok.injEq] at hlink
  subst hlink
  obtain ⟨hpart, -⟩ := hread .direct true ⟨1, none⟩ _ _ threeBytes_openRange _ _
    threeBytes_reads hhonest
  exact ⟨hfits, hstored, threeBytes_reads, hhonest, rfl, hpart⟩

end ChunkedFile

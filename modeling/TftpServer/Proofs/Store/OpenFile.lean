import TftpServer.Proofs.Transfer.Blocks
import TftpServer.Store.File

/-! # Open files and contents in memory

An open file is read through a stream that remembers where it stands and whether it ran
past the end, while a content in memory remembers nothing. There is no telling them apart
by their answers: whatever the earlier reads have left behind, every read of a file that
is not changed gives what the same read of its content gives.
-/

namespace TftpServer

variable {ω σ : Type}

/-- A read as it is asked for, and the world in which it is made. -/
structure ReadRequest (ω : Type) where
  world : ω
  offset : UInt64
  count : UInt64

/-- Makes reads in a row, each in its own world. Gives what they come to, and the stream
that is left in the end. -/
def BufferedReading.readEach (reading : BufferedReading ω σ) (stream : σ) :
    List (ReadRequest ω) → List (Except LengthError ReadReply) × σ
  | [] => ([], stream)
  | request :: rest =>
    let (result, next, _) := reading.read stream request.offset request.count request.world
    let (results, last) := readEach reading next rest
    (result :: results, last)

theorem Content.readEach_eq (content : Content) (requests : List (ReadRequest ω)) :
    (Content.reading ω).unbroken.readEach content requests =
      (requests.map fun request => .ok (content.readAt request.offset request.count), content) := by
  induction requests with
  | nil => rfl
  | cons request rest ih =>
      simp only [BufferedReading.readEach, Reading.unbroken, Content.reading, List.map_cons] at ih ⊢
      rw [ih]

/-- The answer to a read of a content, as a range of its octets. -/
theorem Content.readAt_eq_extract (content : Content) (offset count : UInt64) :
    content.readAt offset count =
      { octets := (content.extract offset.toNat
          (min (offset.toNat + count.toNat) content.size)).toList } := by
  rw [readAt_eq, slice, Array.extract_eq_extract_right.mpr]
  omega

namespace FileSource

variable {source : FileSource} {content : Content}

/-- The file at the path has the content, which the size at opening fits. -/
structure Holds (source : FileSource) (content : Content) (tree : FileTree) : Prop where
  file : tree.find? source.path = some (.file content)
  size : source.size.toNat = content.size

/-- An answer leaves nothing behind but the stream, and does not depend on the stream that it
finds. The mark is cleared first, so the position is always taken. -/
theorem Holds.answer {tree : FileTree} (hholds : source.Holds content tree)
    (offset count : UInt64) :
    ∃ stream, source.answer offset count tree =
      (content.readAt offset count, { source with stream }) := by
  have hend : source.size ≤ offset ↔ content.size ≤ offset.toNat := by
    rw [UInt64.le_iff_toNat_le, hholds.size]
  unfold FileSource.answer Content.readAt
  split
  next hbeyond => exact ⟨source.stream, by rw [if_pos (hend.mp hbeyond)]⟩
  next hwithin =>
    rw [if_neg fun hbeyond => hwithin (hend.mpr hbeyond)]
    simp only [seek, FileStream.seek, FileStream.clear, FileStream.read, FileSource.content,
      hholds.file, Bool.false_eq_true, if_false]
    exact ⟨_, rfl⟩

theorem Holds.read {tree : FileTree} (hholds : source.Holds content tree) (offset count : UInt64) :
    ∃ stream, source.read offset count tree =
      (if offset.toNat < content.size ∧ maxBufferSize < count then .error .creation
        else .ok (content.readAt offset count), { source with stream }) := by
  have hwithin : offset < source.size ↔ offset.toNat < content.size := by
    rw [UInt64.lt_iff_toNat_lt, hholds.size]
  unfold FileSource.read
  split
  next hbroken =>
    rw [if_pos ⟨hwithin.mp hbroken.1, hbroken.2⟩]
    exact ⟨_, rfl⟩
  next hmade =>
    rw [if_neg fun hbroken => hmade ⟨hwithin.mpr hbroken.1, hbroken.2⟩]
    obtain ⟨stream, hanswer⟩ := hholds.answer offset count
    exact ⟨stream, by rw [hanswer]⟩

/-- However many reads there are, they are answered from the content or broken off. -/
theorem readEach_eq {requests : List (ReadRequest FileTree)}
    (hholds : ∀ request ∈ requests, source.Holds content request.world) :
    ∃ stream, FileSource.bufferedReading.readEach source requests =
      (requests.map fun request =>
          if request.offset.toNat < content.size ∧ maxBufferSize < request.count then
            .error .creation
          else .ok (content.readAt request.offset request.count),
        { source with stream }) := by
  induction requests generalizing source with
  | nil => exact ⟨source.stream, rfl⟩
  | cons request rest ih =>
      obtain ⟨hfirst, hothers⟩ := List.forall_mem_cons.mp hholds
      obtain ⟨stream, hread⟩ := hfirst.read request.offset request.count
      -- The path and the size stay, so the other reads find the same file.
      have hnext : ∀ other ∈ rest, { source with stream }.Holds content other.world :=
        fun other hother => ⟨(hothers other hother).file, (hothers other hother).size⟩
      obtain ⟨last, hrest⟩ := ih hnext
      refine ⟨last, ?_⟩
      simp only [BufferedReading.readEach, FileSource.bufferedReading, hread] at hrest ⊢
      rw [hrest]
      rfl

end FileSource

theorem openFile_of_file {root name path : Octets} {tree : FileTree} {content : Content}
    (hpath : Path.resolveBelow root name = some path)
    (hfile : tree.find? path = some (.file content)) :
    openFile root name .octet tree =
      { stream := some (.octet { path, size := UInt64.ofNat content.size }) } := by
  simp only [openFile, hpath, hfile]
  rfl

/-- A file that is opened and not changed answers like its content in memory. However
often it is read before, at any offsets and in any order, and whatever happens to the
rest of the tree in the meantime, a read never fails and gives the octets from its
offset on, as far as the count and the content reach. Only if there are some and no buffer
can hold as many as it asks for, the read is broken off, and later reads know nothing of
it. So the answers differ exactly if there is such a read among them. Both report the size
of the content as their length. -/
theorem openFile_answers_as_content {root name path : Octets} {tree : FileTree} {content : Content}
    (hpath : Path.resolveBelow root name = some path)
    (hfile : tree.find? path = some (.file content)) (hcontent : content.size < UInt64.size)
    (requests : List (ReadRequest FileTree))
    (hkept : ∀ request ∈ requests, request.world.find? path = some (.file content)) :
    ∃ source, openFile root name .octet tree = { stream := some (.octet source) } ∧
      let fromFile := FileSource.bufferedReading.readEach source requests
      let fromMemory := (Content.reading FileTree).unbroken.readEach content requests
      let octets (request : ReadRequest FileTree) := (content.extract request.offset.toNat
        (min (request.offset.toNat + request.count.toNat) content.size)).toList
      fromFile.1 = requests.map (fun request =>
        if request.offset.toNat < content.size ∧ maxBufferSize < request.count then .error .creation
        else .ok { octets := octets request }) ∧
      fromMemory.1 = requests.map (fun request => .ok { octets := octets request }) ∧
      (fromFile.1 = fromMemory.1 ↔ ∀ request ∈ requests,
        request.offset.toNat < content.size → request.count ≤ maxBufferSize) ∧
      ∀ world, (FileSource.bufferedReading.length fromFile.2 world).map UInt64.toNat =
          some content.size ∧
        ((Content.reading FileTree).length fromMemory.2 world).map UInt64.toNat =
          some content.size := by
  let source : FileSource := { path, size := UInt64.ofNat content.size }
  have hsize : (UInt64.ofNat content.size).toNat = content.size :=
    UInt64.toNat_ofNat_of_lt' hcontent
  have hholds : ∀ request ∈ requests, source.Holds content request.world :=
    fun request hrequest => ⟨hkept request hrequest, hsize⟩
  obtain ⟨stream, hresults⟩ := FileSource.readEach_eq hholds
  refine ⟨source, openFile_of_file hpath hfile, ?_⟩
  simp only [hresults, Content.readEach_eq, content.readAt_eq_extract]
  refine ⟨trivial, trivial, ?_, fun _ => ⟨congrArg some hsize, congrArg some hsize⟩⟩
  rw [List.map_inj_left]
  refine forall₂_congr fun request _ => ⟨fun heq hwithin => ?_, fun hfits => ?_⟩
  · refine UInt64.not_lt.mp fun hcount => ?_
    rw [if_pos ⟨hwithin, hcount⟩] at heq
    cases heq
  · exact if_neg fun hbroken => UInt64.not_lt.mpr (hfits hbroken.1) hbroken.2

/-- A read over the end, one behind it, one that is broken off, and one at the start, while
another file comes to lie beside the one that is read. -/
theorem openFile_answers_behind_and_before_the_end :
    let content : Content := #[65, 66, 67]
    let tree : FileTree := .directory [(ascii "srv", .directory [(ascii "g", .file content)])]
    let later : FileTree :=
      .directory [(ascii "srv", .directory [(ascii "f", .file #[]), (ascii "g", .file content)])]
    let requests : List (ReadRequest FileTree) :=
      [⟨tree, 2, 5⟩, ⟨later, 7, 1⟩, ⟨later, 1, 18446744073709551615⟩, ⟨later, 0, 2⟩]
    Path.resolveBelow (ascii "srv") (ascii "/g") = some (ascii "srv/g") ∧
      (∀ request ∈ requests, request.world.find? (ascii "srv/g") = some (.file content)) ∧
      ∃ source, openFile (ascii "srv") (ascii "/g") .octet tree = { stream := some (.octet source) } ∧
        (FileSource.bufferedReading.readEach source requests).1 =
          [.ok { octets := [67] }, .ok {}, .error .creation, .ok { octets := [65, 66] }] := by
  intro content tree later requests
  have hpath : Path.resolveBelow (ascii "srv") (ascii "/g") = some (ascii "srv/g") := by
    decide +kernel
  have hbefore : tree.find? (ascii "srv/g") = some (.file content) := rfl
  have hafter : later.find? (ascii "srv/g") = some (.file content) := rfl
  have hkept : ∀ request ∈ requests, request.world.find? (ascii "srv/g") = some (.file content) := by
    simp [requests, hbefore, hafter]
  obtain ⟨source, hopen, hresults, _⟩ := openFile_answers_as_content hpath hbefore
    (show 3 < UInt64.size by decide) requests hkept
  exact ⟨hpath, hkept, source, hopen, hresults⟩

/-- The first read of a file of three letters, with the greatest count that there is, is
broken off. The same read of its content in memory gives the letters. -/
theorem openFile_not_as_content_beyond_buffer :
    let content : Content := #[65, 66, 67]
    let tree : FileTree := .directory [(ascii "srv", .directory [(ascii "g", .file content)])]
    let requests : List (ReadRequest FileTree) := [⟨tree, 0, 18446744073709551615⟩]
    (∀ request ∈ requests, request.world.find? (ascii "srv/g") = some (.file content)) ∧
      ∃ source, openFile (ascii "srv") (ascii "/g") .octet tree = { stream := some (.octet source) } ∧
        (FileSource.bufferedReading.readEach source requests).1 = [.error .creation] ∧
        ((Content.reading FileTree).unbroken.readEach content requests).1 =
          [.ok { octets := [65, 66, 67] }] := by
  intro content tree requests
  have hpath : Path.resolveBelow (ascii "srv") (ascii "/g") = some (ascii "srv/g") := by
    decide +kernel
  have hfile : tree.find? (ascii "srv/g") = some (.file content) := rfl
  refine ⟨by simp [requests, hfile], _, openFile_of_file hpath hfile, rfl, ?_⟩
  rw [Content.readEach_eq]
  rfl

end TftpServer

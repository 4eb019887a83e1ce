import JxCore.Core.Zip
import Mathlib.Data.List.TakeWhile

/-!
# Archives that are listed (`core/zip.c`)

A zip file as its format describes it, and when the walk of `zip_next_entry` lists its members: every
call stands before the record of the next member (`Stands`) as long as the lengths of the records are
read as they are.
-/

namespace JxCore.Zip

/-! ## Archives -/

/-- An uncompressed file of an archive: the fields that both headers repeat, what they have of their own,
and the place of the local header. -/
structure Member where
  name : Bytes
  data : Bytes
  extra : Bytes
  comment : Bytes
  localExtra : Bytes
  offset : Nat
  /-- Versions and flags. -/
  version : Bytes
  /-- Time, date and checksum. -/
  stamp : Bytes
  /-- Disk number and attributes. -/
  attributes : Bytes
  name_lt : name.length < 2 ^ 16
  extra_lt : extra.length < 2 ^ 16
  comment_lt : comment.length < 2 ^ 16
  localExtra_lt : localExtra.length < 2 ^ 16
  version_length : version.length = 6
  stamp_length : stamp.length = 8
  attributes_length : attributes.length = 8

namespace Member

variable (m : Member)

def localHeader : Bytes :=
  word 0x04034b50 ++ m.version.drop 2 ++ half 0 ++ m.stamp ++ word m.data.length ++
    word m.data.length ++ half m.name.length ++ half m.localExtra.length

/-- The local header with what follows it. -/
def localRecord : Bytes := m.localHeader ++ m.name ++ m.localExtra ++ m.data

def centralHeader : Bytes :=
  word 0x02014b50 ++ m.version ++ half 0 ++ m.stamp ++ word m.data.length ++ word m.data.length ++
    half m.name.length ++ half m.extra.length ++ half m.comment.length ++ m.attributes ++
    word m.offset

/-- The record of the central directory. -/
def record : Bytes := m.centralHeader ++ m.name ++ m.extra ++ m.comment

end Member

/-- A zip file without comment: local headers and data at the places the directory says, the directory,
and the record at the end. -/
structure Archive where
  front : Bytes
  members : List Member
  number_lt : members.length < 2 ^ 16
  placed : ∀ m ∈ members, At front m.offset m.localRecord
  length_lt : front.length + (members.flatMap Member.record).length + 22 < 2 ^ 31

namespace Archive

variable (a : Archive)

def directory : Bytes := a.members.flatMap Member.record

def endRecord : Bytes :=
  word 0x06054b50 ++ half 0 ++ half 0 ++ half a.members.length ++ half a.members.length ++
    word a.directory.length ++ word a.front.length ++ half 0

def image : Bytes := a.front ++ a.directory ++ a.endRecord

end Archive

/-- What `zip_next_entry` is to say about a member. -/
def Member.entry (m : Member) : Entry where
  filename := m.name
  uncompressedSize := BitVec.ofNat 32 m.data.length
  compressionMethod := 0
  data := BitVec.ofNat 32 (m.offset + 30 + m.name.length + m.localExtra.length)

/-- What `read_codefile` is to say about a name. -/
def Archive.lookup (a : Archive) (filename : Bytes) : Option (BitVec 32 × BitVec 32) :=
  (a.members.find? (·.name = filename)).map fun m => (m.entry.data, m.entry.uncompressedSize)

/-- The archive is listed: from every point of a walk, starting again gives the members in order, and
`read_codefile` finds the first one with a name. -/
def Archive.Listed (a : Archive) : Prop :=
  ∃ z₀, zipInit a.image (BitVec.ofNat 32 a.image.length) = .ok z₀ ∧
    ∀ z, Relation.ReflTransGen Step z₀ z →
      Lists (zipReset z) (a.members.map Member.entry) ∧
      ∀ filename, ∃ z', ∀ fuel > a.members.length,
        readCodefile fuel z filename = some (.ok (a.lookup filename, z'))

/-- The lengths by which `zip_next_entry` finds the next record are read as they are. -/
def Archive.DirectoryFits (a : Archive) : Prop :=
  ∀ m ∈ a.members.dropLast, m.extra.length < 2 ^ 15 ∧ m.comment.length < 2 ^ 15

/-- The archive is within the limits of the routines. -/
structure Archive.Fits (a : Archive) : Prop where
  number : a.members.length < 2 ^ 15
  names : ∀ m ∈ a.members, NameFits m.name
  localExtra : ∀ m ∈ a.members, m.localExtra.length < 2 ^ 15
  directory : a.DirectoryFits

/-! ## One entry -/

namespace Member

variable {m : Member}

@[simp] theorem length_localHeader : m.localHeader.length = 30 := by
  simp [localHeader, m.version_length, m.stamp_length]

@[simp] theorem length_centralHeader : m.centralHeader.length = 46 := by
  simp [centralHeader, m.version_length, m.stamp_length, m.attributes_length]

/-- The fields of the local header that are read. -/
theorem localHeader_fields {b : Bytes} {n : Nat} (h : At b n m.localHeader) :
    At b n (word 0x04034b50) ∧ At b (n + 26) (half m.name.length) ∧
      At b (n + 28) (half m.localExtra.length) := by
  simp only [localHeader, at_append, List.length_append, length_half, length_word, List.length_drop,
    m.version_length, m.stamp_length, Nat.reduceAdd, Nat.reduceSub] at h
  obtain ⟨⟨⟨⟨⟨⟨⟨hsig, -⟩, -⟩, -⟩, -⟩, -⟩, hname⟩, hextra⟩ := h
  exact ⟨hsig, hname, hextra⟩

/-- The fields of a record that are read. -/
structure HeaderAt (b : Bytes) (n : Nat) (m : Member) : Prop where
  signature : At b n (word 0x02014b50)
  method : At b (n + 10) (half 0)
  size : At b (n + 24) (word m.data.length)
  name : At b (n + 28) (half m.name.length)
  extra : At b (n + 30) (half m.extra.length)
  comment : At b (n + 32) (half m.comment.length)
  offset : At b (n + 42) (word m.offset)

theorem headerAt {b : Bytes} {n : Nat} (h : At b n m.centralHeader) : HeaderAt b n m := by
  simp only [centralHeader, at_append, List.length_append, length_half, length_word,
    m.version_length, m.stamp_length, m.attributes_length, Nat.reduceAdd] at h
  obtain ⟨⟨⟨⟨⟨⟨⟨⟨⟨⟨hsig, -⟩, hmethod⟩, -⟩, -⟩, hsize⟩, hname⟩, hextra⟩, hcomment⟩, -⟩, hoffset⟩ := h
  exact ⟨hsig, hmethod, hsize, hname, hextra, hcomment, hoffset⟩

/-- The local header says where the data are. -/
theorem localData_eq {zip : Bytes} (hzip : zip.length < 2 ^ 31) (h : At zip m.offset m.localRecord) :
    localData zip (BitVec.ofNat 32 m.offset) = .ok (BitVec.ofNat 32 m.offset + lrecSize +
      extended m.name.length + extended m.localExtra.length) := by
  simp only [localRecord, at_append] at h
  obtain ⟨⟨⟨hheader, -⟩, -⟩, -⟩ := h
  have hle := hheader.length_le (List.ne_nil_of_length_pos (by simp))
  have hshort : m.localHeader.length < 2 ^ 32 := by
    rw [length_localHeader]
    decide
  obtain ⟨hsig, hname, hextra⟩ := localHeader_fields (show At m.localHeader 0 m.localHeader from
    List.prefix_rfl)
  have hread := zread_of_at hzip hheader hle
  rw [length_localHeader] at hle hread
  have hsignature : makelong m.localHeader 0 = .ok localHeaderSignature := makelong_word hshort hsig
  have hnameLength : makeword m.localHeader lFilenameLength = .ok (extended m.name.length) :=
    makeword_half hshort hname
  have hextraLength : makeword m.localHeader lExtraFieldLength = .ok (extended m.localExtra.length) :=
    makeword_half hshort hextra
  simp only [localData, zseek_of_lt (show m.offset < 2 ^ 31 by omega),
    show zread zip (BitVec.ofNat 32 m.offset) lrecSize = _ from hread, bind, Except.bind, hsignature,
    hnameLength, hextraLength, panicIf_neg (not_not_intro rfl)]
  rfl

/-- What `zip_next_entry` makes of a record, whatever its lengths are. -/
def entryRead (m : Member) : Entry where
  filename := m.name.takeWhile (· ≠ 0)
  uncompressedSize := BitVec.ofNat 32 m.data.length
  compressionMethod := 0
  data := BitVec.ofNat 32 m.offset + lrecSize + extended m.name.length +
    extended m.localExtra.length

/-- By how much `zip_next_entry` advances `dirofs`. -/
def advance (m : Member) : BitVec 32 :=
  cFilename + extended m.name.length + extended m.extra.length + extended m.comment.length

theorem advance_eq (hname : m.name.length < 2 ^ 15) (hextra : m.extra.length < 2 ^ 15)
    (hcomment : m.comment.length < 2 ^ 15) : m.advance = BitVec.ofNat 32 m.record.length := by
  rw [advance, (extended_eq_iff m.name_lt).mpr hname, (extended_eq_iff m.extra_lt).mpr hextra,
    (extended_eq_iff m.comment_lt).mpr hcomment, record]
  simp only [List.length_append, length_centralHeader, BitVec.ofNat_add]
  rfl

/-- Exactly a name and an extra field within the limits are read as they are. -/
theorem entryRead_eq_iff (hname : NameFits m.name) :
    m.entryRead = m.entry ↔ m.localExtra.length < 2 ^ 15 := by
  obtain ⟨hlen, hmem⟩ := hname
  have htake : m.name.takeWhile (· ≠ 0) = m.name := by
    rw [List.takeWhile_eq_self_iff]
    intro c hc
    rw [decide_eq_true_eq]
    rintro rfl
    exact hmem hc
  have hnameLength := (extended_eq_iff m.name_lt).mpr (by omega)
  rw [← extended_eq_iff m.localExtra_lt]
  simp only [entryRead, entry, htake, hnameLength, Entry.mk.injEq, true_and, BitVec.ofNat_add]
  exact BitVec.add_right_inj (BitVec.ofNat 32 m.offset + lrecSize + BitVec.ofNat 32 m.name.length)

theorem centralEntry_eq {z : State} {n : Nat} (hzip : z.zip.length < 2 ^ 31)
    (hdir : z.dirbuf.length < 2 ^ 31) (hofs : z.dirofs = BitVec.ofNat 32 n)
    (hrecord : At z.dirbuf n m.record) (hlocal : At z.zip m.offset m.localRecord) :
    centralEntry z = if filenameSize ≤ m.name.length then throw .overflow else
      .ok (m.entryRead, { z with
        mempos := BitVec.ofNat 32 m.offset
        dirofs := z.dirofs + m.advance
        current := z.current + 1 }) := by
  have hb : z.dirbuf.length < 2 ^ 32 := by omega
  simp only [record, at_append, length_centralHeader] at hrecord
  obtain ⟨⟨⟨hheader, hname⟩, -⟩, -⟩ := hrecord
  have h := headerAt hheader
  have hat (i : Nat) : z.dirofs + BitVec.ofNat 32 i = BitVec.ofNat 32 (n + i) := by
    rw [hofs, BitVec.ofNat_add]
  have hsig : makelong z.dirbuf z.dirofs = .ok centralHeaderSignature := by
    rw [hofs]
    exact makelong_word hb h.signature
  have hsize : makelong z.dirbuf (z.dirofs + cUncompressedSize) = _ :=
    (congrArg _ (hat 24)).trans (makelong_word hb h.size)
  have hnameLength : makeword z.dirbuf (z.dirofs + cFilenameLength) = _ :=
    (congrArg _ (hat 28)).trans (makeword_half hb h.name)
  have hextraLength : makeword z.dirbuf (z.dirofs + cExtraFieldLength) = _ :=
    (congrArg _ (hat 30)).trans (makeword_half hb h.extra)
  have hcommentLength : makeword z.dirbuf (z.dirofs + cCommentLength) = _ :=
    (congrArg _ (hat 32)).trans (makeword_half hb h.comment)
  have hoffset : makelong z.dirbuf (z.dirofs + cRelativeOffsetLocalHeader) = _ :=
    (congrArg _ (hat 42)).trans (makelong_word hb h.offset)
  have hmethod : makeword z.dirbuf (z.dirofs + cCompressionMethod) = .ok 0 :=
    (congrArg _ (hat 10)).trans (makeword_half hb h.method)
  have hstring : makestring z.dirbuf (z.dirofs + cFilename) (extended m.name.length) = _ :=
    (congrArg (makestring z.dirbuf · _) (hat 46)).trans (makestring_name hb hname m.name_lt)
  simp only [centralEntry, hsig, hsize, hnameLength, hextraLength, hcommentLength, hoffset, hmethod,
    hstring, localData_eq hzip hlocal, panicIf_neg (not_not_intro rfl), bind, Except.bind]
  split_ifs
  · rfl
  · rfl

end Member

/-! ## Walks over an archive -/

theorem At.append_left {b c x : Bytes} {n : Nat} (h : At b n x) : At (b ++ c) n x := by
  rw [At, List.drop_append]
  exact h.trans (List.prefix_append _ _)

theorem at_middle (b x c : Bytes) : At (b ++ (x ++ c)) b.length x := by
  rw [At, List.drop_left]
  exact List.prefix_append x c

namespace Archive

variable {a : Archive}

@[simp] theorem length_endRecord : a.endRecord.length = 22 := rfl

theorem length_image : a.image.length = a.front.length + a.directory.length + 22 := by
  simp [image, Nat.add_assoc]

theorem image_lt : a.image.length < 2 ^ 31 := by
  rw [length_image]
  exact a.length_lt

theorem directory_lt : a.directory.length < 2 ^ 31 := by
  have := a.length_lt
  rw [directory]
  omega

/-- The variables behind `zip_init`. -/
def initial (a : Archive) : State where
  zip := a.image
  count := extended a.members.length
  dirofs := 0
  mempos := BitVec.ofNat 32 a.front.length
  dirbuf := a.directory
  current := 0

theorem endRecord_fields {b : Bytes} {n : Nat} (h : At b n a.endRecord) :
    At b n (word 0x06054b50) ∧ At b (n + 10) (half a.members.length) ∧
      At b (n + 12) (word a.directory.length) := by
  simp only [endRecord, at_append, List.length_append, length_half, length_word, Nat.reduceAdd] at h
  obtain ⟨⟨⟨⟨⟨⟨⟨hsig, -⟩, -⟩, -⟩, hcount⟩, hsize⟩, -⟩, -⟩ := h
  exact ⟨hsig, hcount, hsize⟩

theorem zipInit_eq (a : Archive) :
    zipInit a.image (BitVec.ofNat 32 a.image.length) = .ok a.initial := by
  have himage := a.image_lt
  have hlen := a.length_image
  have hend : At a.image (a.front.length + a.directory.length) a.endRecord := by
    have h := (at_append.mp (List.prefix_rfl : At a.image 0 _)).2
    rwa [Nat.zero_add, List.length_append] at h
  have hdir : At a.image a.front.length a.directory := by
    rw [image, List.append_assoc]
    exact at_middle _ _ _
  have hshort : a.endRecord.length < 2 ^ 32 := by
    rw [length_endRecord]
    decide
  obtain ⟨hsig, hcount, hsize⟩ := endRecord_fields (show At a.endRecord 0 a.endRecord from
    List.prefix_rfl)
  have hendPos : BitVec.ofNat 32 a.image.length - ecrecSize =
      BitVec.ofNat 32 (a.front.length + a.directory.length) := by
    rw [hlen, BitVec.ofNat_add _ 22]
    exact BitVec.add_sub_cancel _ _
  have hdirPos : BitVec.ofNat 32 a.image.length - (BitVec.ofNat 32 a.directory.length + ecrecSize) =
      BitVec.ofNat 32 a.front.length := by
    rw [hlen, Nat.add_assoc, BitVec.ofNat_add, BitVec.ofNat_add _ 22]
    exact BitVec.add_sub_cancel _ _
  have hreadEnd : zread a.image (BitVec.ofNat 32 (a.front.length + a.directory.length)) ecrecSize =
      .ok a.endRecord :=
    zread_of_at himage hend (by rw [hlen, length_endRecord])
  have hreadDir : zread a.image (BitVec.ofNat 32 a.front.length)
      (BitVec.ofNat 32 a.directory.length) = .ok a.directory :=
    zread_of_at himage hdir (by omega)
  simp only [zipInit, hendPos, hdirPos, zseek_of_lt (show a.front.length + a.directory.length < 2 ^ 31
      by omega), zseek_of_lt (show a.front.length < 2 ^ 31 by omega), hreadEnd, hreadDir,
    show makelong a.endRecord 0 = _ from makelong_word hshort hsig,
    show makeword a.endRecord totalEntriesCentralDir = _ from makeword_half hshort hcount,
    show makelong a.endRecord sizeCentralDirectory = _ from makelong_word hshort hsize, bind,
    Except.bind]
  rfl

/-- A walk that has passed some of the members and stands before the record of the next one. -/
structure Stands (a : Archive) (z : State) (passed rest : List Member) : Prop where
  zip : z.zip = a.image
  dirbuf : z.dirbuf = a.directory
  members : a.members = passed ++ rest
  dirofs : rest ≠ [] → z.dirofs = BitVec.ofNat 32 (passed.flatMap Member.record).length

theorem stands_initial (a : Archive) : a.Stands (zipReset a.initial) [] a.members :=
  ⟨rfl, rfl, rfl, fun _ => rfl⟩

/-- One call: the member that comes next is read, and if its lengths are within the limits the walk
stands before the one after it. -/
theorem Stands.next {z : State} {passed rest : List Member} {m : Member}
    (h : a.Stands z passed (m :: rest)) (hcount : z.current ≠ z.count) (hname : m.name.length < 80)
    (hlengths : rest ≠ [] → m.extra.length < 2 ^ 15 ∧ m.comment.length < 2 ^ 15) :
    ∃ z', zipNextEntry z = .ok (some m.entryRead, z') ∧ a.Stands z' (passed ++ [m]) rest := by
  have hofs := h.dirofs (List.cons_ne_nil m rest)
  have hdirectory : a.directory = passed.flatMap Member.record ++
      (m.record ++ rest.flatMap Member.record) := by
    rw [directory, h.members, List.flatMap_append, List.flatMap_cons]
  have hrecord : At z.dirbuf (passed.flatMap Member.record).length m.record := by
    rw [h.dirbuf, hdirectory]
    exact at_middle _ _ _
  have hlocal : At z.zip m.offset m.localRecord := by
    rw [h.zip, image, List.append_assoc]
    exact (a.placed m (h.members ▸ List.mem_append_right _ List.mem_cons_self)).append_left
  have hread := Member.centralEntry_eq (h.zip ▸ a.image_lt) (h.dirbuf ▸ a.directory_lt) hofs hrecord
    hlocal
  rw [if_neg (by simpa [filenameSize] using hname)] at hread
  refine ⟨{ z with
    mempos := BitVec.ofNat 32 m.offset
    dirofs := z.dirofs + m.advance
    current := z.current + 1 }, ?_, h.zip, h.dirbuf, ?_, fun hrest => ?_⟩
  · rw [zipNextEntry, if_neg hcount, hread]
    rfl
  · rw [h.members, List.append_assoc, List.singleton_append]
  · change z.dirofs + m.advance = _
    obtain ⟨hextra, hcomment⟩ := hlengths hrest
    rw [hofs, Member.advance_eq (by omega) hextra hcomment, ← BitVec.ofNat_add, List.flatMap_append,
      List.flatMap_singleton, List.length_append]

/-- Within the limits the rest of the members is listed. -/
theorem Stands.lists (hfits : a.Fits) {z : State} {passed rest : List Member}
    (h : a.Stands z passed rest) (hcount : z.count = BitVec.ofNat 32 a.members.length)
    (hcurrent : z.current = BitVec.ofNat 32 passed.length) : Lists z (rest.map Member.entry) := by
  induction rest generalizing z passed with
  | nil =>
    apply Lists.done
    rw [zipNextEntry, if_pos (by rw [hcurrent, hcount, h.members, List.append_nil])]
    rfl
  | cons m rest ih =>
    have hm : m ∈ a.members := h.members ▸ List.mem_append_right _ List.mem_cons_self
    have hnumber := hfits.number
    have hlen := congrArg List.length h.members
    rw [List.length_append, List.length_cons] at hlen
    have hne : z.current ≠ z.count := by
      rw [hcurrent, hcount, ne_eq, ← BitVec.toNat_inj, BitVec.toNat_ofNat, BitVec.toNat_ofNat]
      omega
    obtain ⟨z', hnext, h'⟩ := h.next hne (hfits.names m hm).1 fun hrest => by
      apply hfits.directory m
      rw [h.members, List.dropLast_append_of_ne_nil (List.cons_ne_nil m rest),
        List.dropLast_cons_of_ne_nil hrest]
      exact List.mem_append_right _ List.mem_cons_self
    have hmoved := (centralEntry_ok (zipNextEntry_some hnext).2).2
    rw [(Member.entryRead_eq_iff (hfits.names m hm)).mpr (hfits.localExtra m hm)] at hnext
    apply Lists.entry hnext
    apply ih h' (hmoved.count.trans hcount)
    rw [hmoved.current, hcurrent, List.length_append, BitVec.ofNat_add]
    rfl

/-- The place of the data is where the image holds them. -/
theorem data_at {m : Member} (hm : m ∈ a.members) :
    At a.image (m.offset + 30 + m.name.length + m.localExtra.length) m.data := by
  have h := a.placed m hm
  simp only [Member.localRecord, at_append, List.length_append, Member.length_localHeader,
    ← Nat.add_assoc] at h
  rw [image, List.append_assoc]
  exact h.2.append_left

/-- Where the walk finds the records, a listing shows the extra fields of the local headers to be
short. -/
theorem Stands.localExtra {z : State} {passed rest : List Member} (h : a.Stands z passed rest)
    (hdir : ∀ m ∈ rest.dropLast, m.extra.length < 2 ^ 15 ∧ m.comment.length < 2 ^ 15)
    (hlists : Lists z (rest.map Member.entry)) : ∀ m ∈ rest, m.localExtra.length < 2 ^ 15 := by
  induction rest generalizing z passed with
  | nil => exact fun m hm => absurd hm List.not_mem_nil
  | cons m rest ih =>
    have hname : NameFits m.name := hlists.nameFits m.entry List.mem_cons_self
    cases hlists with
    | entry hnext hrest =>
      obtain ⟨z', hread, h'⟩ := h.next (zipNextEntry_some hnext).1 hname.1 fun hrest => by
        apply hdir m
        rw [List.dropLast_cons_of_ne_nil hrest]
        exact List.mem_cons_self
      obtain ⟨hentry, rfl⟩ := Prod.mk.inj (Except.ok.inj (hread.symm.trans hnext))
      have hm := (Member.entryRead_eq_iff hname).mp (Option.some.inj hentry)
      have hrestExtra := ih h' (fun m' hm' => hdir m' ?_) hrest
      · intro m' hm'
        obtain rfl | hm' := List.mem_cons.mp hm'
        · exact hm
        · exact hrestExtra m' hm'
      · rw [List.dropLast_cons_of_ne_nil (List.ne_nil_of_mem (List.mem_of_mem_dropLast hm'))]
        exact List.mem_cons_of_mem m hm'

/-- The number of members that `zip_init` finds, if the archive is listed. -/
theorem Listed.count (h : a.Listed) : extended a.members.length = BitVec.ofNat 32 a.members.length := by
  obtain ⟨z₀, hinit, hwalk⟩ := h
  obtain rfl : a.initial = z₀ := Except.ok.inj ((zipInit_eq a).symm.trans hinit)
  have hcount := (hwalk a.initial .refl).1.count
  rw [List.length_map] at hcount
  exact hcount.symm.trans (BitVec.zero_add _)

theorem Listed.number (h : a.Listed) : a.members.length < 2 ^ 15 :=
  (extended_eq_iff a.number_lt).mp h.count

theorem Listed.names (h : a.Listed) : ∀ m ∈ a.members, NameFits m.name := by
  obtain ⟨z₀, -, hwalk⟩ := h
  intro m hm
  exact (hwalk z₀ .refl).1.nameFits m.entry (List.mem_map_of_mem hm)

theorem Listed.fits (h : a.Listed) (hdir : a.DirectoryFits) : a.Fits := by
  refine ⟨h.number, h.names, ?_, hdir⟩
  obtain ⟨z₀, hinit, hwalk⟩ := h
  obtain rfl : a.initial = z₀ := Except.ok.inj ((zipInit_eq a).symm.trans hinit)
  exact (stands_initial a).localExtra hdir (hwalk a.initial .refl).1

theorem Fits.listed (h : a.Fits) : a.Listed := by
  refine ⟨a.initial, zipInit_eq a, fun z hz => ?_⟩
  have hlists : Lists (zipReset a.initial) (a.members.map Member.entry) :=
    (stands_initial a).lists h ((extended_eq_iff a.number_lt).mpr h.number) rfl
  rw [← zipReset_of_steps hz] at hlists
  refine ⟨hlists, fun filename => ?_⟩
  have hfind := findEntry_of_lists hlists filename
  rw [List.length_map, List.find?_map, Option.map_map] at hfind
  exact hfind

/-- **The boot archive is listed as long as its lengths are within the limits of the routines**: they are
read with the sign bit clear and the names fit into an entry. The number and the names are always
necessary, and the lengths of the local headers are, too, where the walk finds the records. -/
theorem listed_of_fits (a : Archive) : (a.Fits → a.Listed) ∧
    (a.Listed → a.members.length < 2 ^ 15 ∧ (∀ m ∈ a.members, NameFits m.name) ∧
      (a.DirectoryFits → a.Fits)) :=
  ⟨Fits.listed, fun h => ⟨h.number, h.names, h.fits⟩⟩

end Archive

/-- A file of one byte, whose name is one byte too long. -/
def longName : Member where
  name := List.replicate 80 0x61
  data := [0x2a]
  extra := []
  comment := []
  localExtra := []
  offset := 0
  version := List.replicate 6 0
  stamp := List.replicate 8 0
  attributes := List.replicate 8 0
  name_lt := by decide
  extra_lt := by decide
  comment_lt := by decide
  localExtra_lt := by decide
  version_length := rfl
  stamp_length := rfl
  attributes_length := rfl

/-- `makestring` writes the 0 behind a name of 80 bytes into `entry->uncompressed_size`. -/
theorem not_listed_longName : ∃ a : Archive, a.members = [longName] ∧ ¬ a.Listed := by
  refine ⟨⟨longName.localRecord, [longName], by decide, ?_, ?_⟩, rfl, fun h => ?_⟩
  · intro m hm
    obtain rfl := List.mem_singleton.mp hm
    exact List.prefix_rfl
  · simp [longName, Member.localRecord, Member.record]
  · exact absurd (h.names longName (List.mem_singleton_self _)).1 (by decide)

end JxCore.Zip

import PoseLang.Proofs.Motion.Stream

/-!
# Streams that are cut off

Bytes that are no stream are refused for one of three reasons, and the reason is the right one: they do not begin with
the signature; or they end too soon, so that more bytes would make them a stream; or they go on behind a whole stream.

A decoder that fails can be completed (`Completes`): it fails only where the bytes end inside a part, and with more
bytes behind them it reads them. This composes as the decoders do, and holds of all that stands behind the signature.
Where a stream may be cut is said by `Stream.upTo`: behind the bone records, and behind each section.

What is proved:

* bytes that end too soon begin a stream (`of_takeMotion_error`);
* the streams with which a stream begins are its cuts (`Stream.bytes_prefix_iff`), so nothing goes on behind a whole
  stream (`Stream.Whole.eq_of_prefix`);
* so the reasons exclude each other, and each is given exactly where it holds (`decode_error_exact`).
-/

namespace PoseLang

/-! ### Bytes that can be completed -/

/-- The stream ends inside a part. -/
def DecodeError.IsTruncated (e : DecodeError) : Prop := ∃ part offset, e = .truncated part offset

/-- The decoder can read something, and fails only where the bytes end inside a part: with more bytes behind them it
reads them. -/
structure Completes {α : Type} (d : Decoder α) : Prop where
  exists_reads : ∃ bytes a, Reads d bytes a
  of_error : ∀ {c e}, d c = .error e → e.IsTruncated ∧ ∃ more a, more ≠ [] ∧ Reads d (c.rest ++ more) a

section Completes

variable {α β : Type}

theorem Completes.pure (a : α) : Completes (Pure.pure a : Decoder α) where
  exists_reads := ⟨[], a, Reads.pure a⟩
  of_error := nofun

/-- What a decoder reads is among its values. -/
theorem Parses.of_reads {d : Decoder α} {values : List UInt8 → α → Prop} (hd : Parses d values) {bytes : List UInt8}
    {a : α} (h : Reads d bytes a) : values bytes a := by
  obtain ⟨bytes', hvalue, heq, -⟩ := hd.of_ok (h 0 [])
  obtain rfl : bytes = bytes' := by simpa using heq
  exact hvalue

/-- If the first part is cut off, something can stand for the second. -/
theorem Completes.bind {d : Decoder α} {f : α → Decoder β} {values : List UInt8 → α → Prop} (hd : Completes d)
    (hparses : Parses d values) (hf : ∀ a, Completes (f a)) : Completes (d >>= f) where
  exists_reads := by
    obtain ⟨x, a, hx⟩ := hd.exists_reads
    obtain ⟨y, b, hy⟩ := (hf a).exists_reads
    exact ⟨x ++ y, b, hx.bind hy⟩
  of_error {c e} h := by
    rcases decoder_bind_eq_error_iff.mp h with h | ⟨a, c₁, hfirst, h⟩
    · obtain ⟨he, more, a, hmore, hread⟩ := hd.of_error h
      obtain ⟨y, b, hy⟩ := (hf a).exists_reads
      refine ⟨he, more ++ y, b, by simp [hmore], ?_⟩
      rw [← List.append_assoc]
      exact hread.bind hy
    · obtain ⟨he, more, b, hmore, hread⟩ := (hf a).of_error h
      obtain ⟨x, hx, hrest, -⟩ := hparses.of_ok hfirst
      refine ⟨he, more, b, hmore, ?_⟩
      rw [hrest, List.append_assoc]
      exact (hparses.reads hx).bind hread

/-- A part of one size is completed with zeros. -/
theorem Fixed.completes {d : Decoder α} {size : Nat} {value : List UInt8 → α} (h : Fixed d size value) :
    Completes d where
  exists_reads := ⟨_, _, h.reads (List.length_replicate (n := size) (a := 0))⟩
  of_error {c e} herror := by
    by_cases hsize : size ≤ c.rest.length
    · rw [h.eq_ok hsize] at herror
      cases herror
    · obtain ⟨part, offset, herror', -⟩ := h.short (Nat.lt_of_not_le hsize)
      rw [herror'] at herror
      cases herror
      refine ⟨⟨part, offset, rfl⟩, List.replicate (size - c.rest.length) 0, _, ?_, h.reads ?_⟩
      · rw [Ne, List.replicate_eq_nil_iff]
        omega
      · rw [List.length_append, List.length_replicate]
        omega

end Completes

/-- What is read first is out of the way. -/
theorem Reads.bind_apply {α β : Type} {d : Decoder α} {bytes : List UInt8} {a : α} (h : Reads d bytes a)
    (f : α → Decoder β) (offset : Nat) (rest : List UInt8) :
    (d >>= f) ⟨offset, bytes ++ rest⟩ = f a ⟨offset + bytes.length, rest⟩ := by
  show (d ⟨offset, bytes ++ rest⟩ >>= fun p => f p.1 p.2) = _
  rw [h]
  rfl

theorem completes_takeRecords (n : Nat) (done : List BoneRecord) : Completes (takeRecords n done) := by
  induction n generalizing done with
  | zero => exact .pure done.reverse
  | succ n ih => exact fixed_takeRecord.completes.bind fixed_takeRecord.parses fun record => ih (record :: done)

theorem completes_skipIks (n : Nat) : Completes (skipIks n) := by
  induction n with
  | zero => exact .pure ()
  | succ n ih =>
    refine (fixed_skip .ik Layout.ikSize).completes.bind (parses_skip ..) fun _ => ?_
    refine (fixed_takeWord .ikToggleCount).completes.bind (parses_takeWord _) fun toggles => ?_
    exact (fixed_skip .ikToggles (toggles.toNat * Layout.ikToggleSize)).completes.bind (parses_skip ..) fun _ => ih

theorem SectionKind.completes_skipRecords (kind : SectionKind) (n : Nat) : Completes (kind.skipRecords n) := by
  cases kind with
  | morphs => exact (fixed_skip .morphs (n * Layout.morphSize)).completes
  | cameras => exact (fixed_skip .cameras (n * Layout.cameraSize)).completes
  | lights => exact (fixed_skip .lights (n * Layout.lightSize)).completes
  | selfShadows => exact (fixed_skip .selfShadows (n * Layout.selfShadowSize)).completes
  | iks => exact completes_skipIks n

/-- A section that has begun can be completed. -/
theorem SectionKind.completes_present (kind : SectionKind) :
    Completes (do let n ← takeWord kind.countPart; kind.skipRecords n.toNat; return n) := by
  refine (fixed_takeWord kind.countPart).completes.bind (parses_takeWord _) fun n => ?_
  exact (kind.completes_skipRecords n.toNat).bind (kind.parses_skipRecords n.toNat) fun _ => .pure n

/-- Sections that are cut off can be completed: the section that has begun, and none behind it. -/
theorem of_takeSections_error {kinds : List SectionKind} {c : Cursor} {e : DecodeError}
    (h : takeSections kinds c = .error e) : e.IsTruncated ∧ ∃ more sections, more ≠ [] ∧ AreSections kinds sections ∧
      c.rest ++ more = (sections.map sectionBytes).flatten := by
  induction kinds generalizing c with
  | nil => cases h
  | cons kind kinds ih =>
    rcases of_takeSections_cons_error h with h | ⟨n, c₁, hfirst, h⟩
    · obtain ⟨he, more, n, hmore, hread⟩ := kind.completes_present.of_error h
      obtain ⟨records, hrecords, hbytes, -⟩ := kind.parses_present.of_reads hread
      exact ⟨he, more, [records], hmore, .cons hrecords (.missing kinds), by simpa using hbytes⟩
    · obtain ⟨_, ⟨records, hrecords, rfl, -⟩, hbytes, -⟩ := kind.parses_present.of_ok hfirst
      obtain ⟨he, more, sections, hmore, hsections, hrest⟩ := ih h
      refine ⟨he, more, records :: sections, hmore, .cons hrecords hsections, ?_⟩
      rw [hbytes, List.append_assoc, hrest, List.map_cons, List.flatten_cons]

/-! ### Behind the signature -/

/-- Reads the name of the model and the bone records. -/
def takeNamedBones : Decoder (List UInt8 × List BoneRecord) := do
  let modelName ← takeBytes .modelName Layout.modelNameSize
  let count ← takeWord .boneCount
  let records ← takeRecords count.toNat []
  return (modelName, records)

theorem completes_takeNamedBones : Completes takeNamedBones := by
  refine (fixed_takeBytes .modelName 20).completes.bind (fixed_takeBytes .modelName 20).parses fun modelName => ?_
  refine (fixed_takeWord .boneCount).completes.bind (parses_takeWord _) fun count => ?_
  exact (completes_takeRecords count.toNat []).bind (parses_takeRecords ..) fun records => .pure (modelName, records)

/-- What is read of bytes that have a signature field. -/
theorem takeBones_append {start : List UInt8} (hlength : start.length = 30) (offset : Nat) (rest : List UInt8) :
    takeBones ⟨offset, start ++ rest⟩ =
      if Layout.signature <+: start then takeNamedBones ⟨offset + 30, rest⟩ else .error .badSignature := by
  have hstart : Reads (takeBytes .signature Layout.signatureSize) start start :=
    (fixed_takeBytes .signature 30).reads hlength
  refine (hstart.bind_apply _ offset rest).trans ?_
  rw [hlength]
  by_cases h : Layout.signature <+: start
  · rw [if_pos h, if_pos (List.isPrefixOf_iff_prefix.mpr h)]
    rfl
  · rw [if_neg h, if_neg (mt List.isPrefixOf_iff_prefix.mp h)]
    rfl

theorem reads_takeBones {start rest : List UInt8} {front : List UInt8 × List BoneRecord} (hlength : start.length = 30)
    (hstart : Layout.signature <+: start) (h : Reads takeNamedBones rest front) :
    Reads takeBones (start ++ rest) front := by
  intro offset tail
  rw [List.append_assoc, takeBones_append hlength, if_pos hstart, h, List.length_append, hlength, Nat.add_assoc]

/-- Bytes with the right signature that cannot be read end too soon: they begin a stream. -/
theorem of_takeMotion_error {start rest : List UInt8} {e : DecodeError} (hlength : start.length = 30)
    (hstart : Layout.signature <+: start) (h : takeMotion ⟨0, start ++ rest⟩ = .error e) :
    e.IsTruncated ∧ ∃ (s : Stream) (more : List UInt8), more ≠ [] ∧ s.bytes = start ++ rest ++ more := by
  rw [takeMotion_eq] at h
  rcases decoder_bind_eq_error_iff.mp h with h | ⟨front, c, hfront, h⟩
  · rw [takeBones_append hlength, if_pos hstart] at h
    obtain ⟨he, more, front, hmore, hread⟩ := completes_takeNamedBones.of_error h
    obtain ⟨start', modelName, bones, hlength', hstart', hname, hbones, heq, -⟩ :=
      parses_takeBones.of_reads (reads_takeBones hlength hstart hread)
    refine ⟨he, ⟨start', modelName, bones, [], hlength', hstart', hname, hbones, .missing _⟩, more, hmore, ?_⟩
    simp [Stream.bytes, heq]
  · rcases decoder_bind_eq_error_iff.mp h with h | ⟨_, _, -, h⟩
    · obtain ⟨he, more, sections, hmore, hsections, hrest⟩ := of_takeSections_error h
      obtain ⟨_, ⟨start', modelName, bones, hlength', hstart', hname, hbones, rfl, -⟩, heq, -⟩ :=
        parses_takeBones.of_ok hfront
      refine ⟨he, ⟨start', modelName, bones, sections, hlength', hstart', hname, hbones, hsections⟩, more, hmore, ?_⟩
      change start ++ rest = _ at heq
      rw [heq, List.append_assoc _ c.rest, hrest]
      simp [Stream.bytes]
    · cases h

/-! ### Where a stream may be cut -/

theorem AreSections.take {kinds : List SectionKind} {sections : List (List (List UInt8))}
    (h : AreSections kinds sections) (n : Nat) : AreSections kinds (sections.take n) := by
  induction h generalizing n with
  | missing kinds =>
    rw [List.take_nil]
    exact .missing kinds
  | cons first later ih =>
    cases n with
    | zero => exact .missing _
    | succ n => exact .cons first (ih n)

theorem AreSections.length_le {kinds : List SectionKind} {sections : List (List (List UInt8))}
    (h : AreSections kinds sections) : sections.length ≤ kinds.length := by
  induction h with
  | missing kinds => exact Nat.zero_le _
  | cons first later ih => exact Nat.succ_le_succ ih

/-- Sections with which the bytes of sections begin are the first of them. -/
theorem AreSections.isPrefix_of_append {kinds : List SectionKind} {sections sections' : List (List (List UInt8))}
    (h : AreSections kinds sections) (h' : AreSections kinds sections') {x : List UInt8}
    (heq : (sections.map sectionBytes).flatten ++ x = (sections'.map sectionBytes).flatten) :
    sections <+: sections' := by
  induction h generalizing sections' with
  | missing kinds => exact List.nil_prefix
  | cons first later ih =>
    cases h' with
    | missing => cases heq
    | cons first' later' =>
      rw [List.map_cons, List.map_cons, List.flatten_cons, List.flatten_cons, List.append_assoc] at heq
      obtain ⟨rfl, hrest⟩ := first.append_inj (SectionKind.prefixFree _) first' heq
      exact (List.prefix_cons_inj _).mpr (ih later' hrest)

namespace Stream

/-- The stream up to some section. -/
def upTo (s : Stream) (n : Nat) : Stream :=
  { s with sections := s.sections.take n, areSections := s.areSections.take n }

theorem upTo_bytes_append (s : Stream) (n : Nat) :
    (s.upTo n).bytes ++ ((s.sections.drop n).map sectionBytes).flatten = s.bytes := by
  simp only [bytes, upTo, List.append_assoc]
  rw [← List.flatten_append, ← List.map_append, List.take_append_drop]

/-- The streams with which a stream begins are its cuts. -/
theorem bytes_prefix_iff {s s' : Stream} : s.bytes <+: s'.bytes ↔ ∃ n, s = s'.upTo n := by
  constructor
  · rintro ⟨x, h⟩
    simp only [bytes, List.append_assoc] at h
    obtain ⟨hsignature, h⟩ := List.append_inj h (s.length_signature.trans s'.length_signature.symm)
    obtain ⟨hname, h⟩ := List.append_inj h (s.length_modelName.trans s'.length_modelName.symm)
    obtain ⟨hbones, h⟩ := s.isSection_bones.append_inj prefixFree_bone s'.isSection_bones h
    have hsections := List.prefix_iff_eq_take.mp (s.areSections.isPrefix_of_append s'.areSections h)
    exact ⟨s.sections.length, Stream.ext hsignature hname hbones hsections⟩
  · rintro ⟨n, rfl⟩
    exact ⟨_, s'.upTo_bytes_append n⟩

/-- Behind a whole stream no stream goes on. -/
theorem Whole.eq_of_isPrefix {s s' : Stream} (hs : s.Whole) (h : s.bytes <+: s'.bytes) : s = s' := by
  obtain ⟨n, rfl⟩ := bytes_prefix_iff.mp h
  have hle : s'.sections.length ≤ n := by
    have hall := s'.areSections.length_le
    unfold Whole upTo at hs
    rw [List.length_take] at hs
    omega
  exact Stream.ext rfl rfl rfl (List.take_of_length_le hle)

theorem Whole.eq_nil_of_append {s s' : Stream} (hs : s.Whole) {x : List UInt8} (h : s'.bytes = s.bytes ++ x) :
    x = [] := by
  obtain rfl := hs.eq_of_isPrefix ⟨x, h.symm⟩
  simpa using h

theorem signature_isPrefix (s : Stream) : Layout.signature <+: s.bytes :=
  s.signature_start.trans (List.prefix_append ..)

theorem length_bytes_ge (s : Stream) : 30 ≤ s.bytes.length := by
  rw [bytes, List.length_append, s.length_signature]
  exact Nat.le_add_right ..

end Stream

/-! ### Why bytes are refused -/

/-- The decoder gives a motion. -/
def Accepted (bytes : ByteArray) : Prop := ∃ m, Motion.decode bytes = .ok m

/-- The decoder finds that the bytes end too soon. -/
def Truncated (bytes : ByteArray) : Prop := ∃ part offset, Motion.decode bytes = .error (.truncated part offset)

section

variable {bytes : ByteArray}

theorem decode_stream {s : Stream} (h : s.bytes = bytes.data.toList) : Motion.decode bytes = .ok s.motion :=
  decode_eq_ok_iff.mpr ⟨_, h ▸ s.takeMotion_bytes⟩

theorem accepted_iff : Accepted bytes ↔ ∃ s : Stream, s.bytes = bytes.data.toList := by
  constructor
  · rintro ⟨m, h⟩
    obtain ⟨offset, h⟩ := decode_eq_ok_iff.mp h
    obtain ⟨s, -, hbytes, -⟩ := Stream.of_takeMotion h
    exact ⟨s, by simpa using hbytes.symm⟩
  · rintro ⟨s, h⟩
    exact ⟨s.motion, decode_stream h⟩

theorem truncated_of_size (h : bytes.size < 30) : Truncated bytes := by
  obtain ⟨part, offset, hstart, -⟩ := (fixed_takeBytes .signature 30).short (c := ⟨0, bytes.data.toList⟩) h
  exact ⟨part, offset, decode_eq_error_iff.mpr (.inl (decoder_bind_eq_error_iff.mpr (.inl hstart)))⟩

/-- Bytes that have a signature field, cut behind it. -/
theorem exists_start (h : 30 ≤ bytes.size) :
    ∃ start rest, bytes.data.toList = start ++ rest ∧ start.length = 30 ∧
      (Layout.signature <+: start ↔ Layout.signature <+: bytes.data.toList) := by
  refine ⟨bytes.data.toList.take 30, bytes.data.toList.drop 30, (List.take_append_drop ..).symm,
    List.length_take_of_le h, ?_⟩
  rw [List.prefix_take_iff]
  exact and_iff_left (by decide)

theorem decode_eq_badSignature (h : 30 ≤ bytes.size) (hsignature : ¬ Layout.signature <+: bytes.data.toList) :
    Motion.decode bytes = .error .badSignature := by
  obtain ⟨start, rest, hbytes, hlength, hstart⟩ := exists_start h
  refine decode_eq_error_iff.mpr (.inl ?_)
  rw [takeMotion_eq, hbytes]
  refine decoder_bind_eq_error_iff.mpr (.inl ?_)
  rw [takeBones_append hlength, if_neg (mt hstart.mp hsignature)]

/-- Bytes with the right signature are a stream, or begin one, or begin with a whole one. -/
theorem decode_cases (h : 30 ≤ bytes.size) (hsignature : Layout.signature <+: bytes.data.toList) :
    Accepted bytes ∨
    (Truncated bytes ∧ ∃ (s : Stream) (more : List UInt8), more ≠ [] ∧ s.bytes = bytes.data.toList ++ more) ∨
    ∃ (s : Stream) (extra : List UInt8), s.Whole ∧ extra ≠ [] ∧ bytes.data.toList = s.bytes ++ extra ∧
      Motion.decode bytes = .error (.trailingBytes extra.length) := by
  cases hdecode : Motion.decode bytes with
  | ok m => exact .inl ⟨m, hdecode⟩
  | error e =>
    rcases decode_eq_error_iff.mp hdecode with herror | ⟨m, c, hok, hextra, rfl⟩
    · obtain ⟨start, rest, hbytes, hlength, hstart⟩ := exists_start h
      rw [hbytes] at herror ⊢
      obtain ⟨⟨part, offset, rfl⟩, hcompletion⟩ := of_takeMotion_error hlength (hstart.mpr hsignature) herror
      exact .inr (.inl ⟨⟨part, offset, hdecode⟩, hcompletion⟩)
    · obtain ⟨s, -, hbytes, -, hwhole⟩ := Stream.of_takeMotion hok
      exact .inr (.inr ⟨s, c.rest, hwhole hextra, hextra, hbytes, rfl⟩)

/-- Bytes that begin a stream and are none end too soon. -/
theorem truncated_of_append {more : ByteArray} (h : Accepted (bytes ++ more)) (hno : ¬ Accepted bytes) :
    Truncated bytes := by
  obtain ⟨s, hs⟩ := accepted_iff.mp h
  rw [ByteArray.toList_data_append] at hs
  by_cases hsize : bytes.size < 30
  · exact truncated_of_size hsize
  · have hlength : Layout.signature.length ≤ bytes.data.toList.length :=
      Nat.le_trans (by decide) (Nat.le_of_not_lt hsize)
    have hsignature : Layout.signature <+: bytes.data.toList :=
      List.prefix_of_prefix_length_le s.signature_isPrefix ⟨_, hs.symm⟩ hlength
    rcases decode_cases (Nat.le_of_not_lt hsize) hsignature with haccepted | ⟨htruncated, -⟩ |
      ⟨s', extra, hwhole, hextra, hbytes, -⟩
    · exact absurd haccepted hno
    · exact htruncated
    · rw [hbytes, List.append_assoc] at hs
      exact absurd (List.append_eq_nil_iff.mp (hwhole.eq_nil_of_append hs)).1 hextra

theorem Truncated.not_accepted (h : Truncated bytes) : ¬ Accepted bytes := by
  obtain ⟨part, offset, h⟩ := h
  rintro ⟨m, hm⟩
  rw [h] at hm
  cases hm

theorem truncated_iff (hsize : 30 ≤ bytes.size) (hsignature : Layout.signature <+: bytes.data.toList) :
    Truncated bytes ↔ ¬ Accepted bytes ∧ ∃ more : ByteArray, more.size ≠ 0 ∧ Accepted (bytes ++ more) := by
  constructor
  · intro h
    refine ⟨h.not_accepted, ?_⟩
    rcases decode_cases hsize hsignature with haccepted | ⟨-, s, more, hmore, hs⟩ | ⟨_, _, -, -, -, htrailing⟩
    · exact absurd haccepted h.not_accepted
    · refine ⟨⟨more.toArray⟩, mt List.length_eq_zero_iff.mp hmore, accepted_iff.mpr ⟨s, ?_⟩⟩
      rw [hs, ByteArray.toList_data_append]
    · obtain ⟨part, offset, h⟩ := h
      rw [h] at htrailing
      cases htrailing
  · rintro ⟨hno, more, -, haccepted⟩
    exact truncated_of_append haccepted hno

theorem decode_eq_trailingBytes_iff {count : Nat} : Motion.decode bytes = .error (.trailingBytes count) ↔
    0 < count ∧ ∃ (s : Stream) (extra : List UInt8), s.Whole ∧ bytes.data.toList = s.bytes ++ extra ∧
      extra.length = count := by
  constructor
  · intro h
    rcases decode_eq_error_iff.mp h with h | ⟨m, c, hok, hextra, hcount⟩
    · exact (Stream.within_of_takeMotion h).elim
    · cases hcount
      obtain ⟨s, -, hbytes, -, hwhole⟩ := Stream.of_takeMotion hok
      exact ⟨List.length_pos_iff.mpr hextra, s, c.rest, hwhole hextra, hbytes, rfl⟩
  · rintro ⟨hcount, s, extra, hwhole, hbytes, rfl⟩
    have hsize : 30 ≤ bytes.size := by
      show 30 ≤ bytes.data.toList.length
      rw [hbytes, List.length_append]
      exact Nat.le_add_right_of_le s.length_bytes_ge
    have hsignature : Layout.signature <+: bytes.data.toList :=
      hbytes ▸ s.signature_isPrefix.trans (List.prefix_append ..)
    have hextra : extra ≠ [] := List.length_pos_iff.mp hcount
    rcases decode_cases hsize hsignature with haccepted | ⟨-, s', more, -, hs'⟩ | ⟨s', extra', hwhole', -, hbytes', h⟩
    · obtain ⟨s', hs'⟩ := accepted_iff.mp haccepted
      exact absurd (hwhole.eq_nil_of_append (hs'.trans hbytes)) hextra
    · rw [hbytes, List.append_assoc] at hs'
      exact absurd (List.append_eq_nil_iff.mp (hwhole.eq_nil_of_append hs')).1 hextra
    · -- of two whole streams with which the bytes begin, one begins the other
      obtain rfl : s = s' := by
        rcases List.prefix_or_prefix_of_prefix ⟨extra, hbytes.symm⟩ ⟨extra', hbytes'.symm⟩ with hle | hle
        · exact hwhole.eq_of_isPrefix hle
        · exact (hwhole'.eq_of_isPrefix hle).symm
      rw [h, List.append_cancel_left (hbytes.symm.trans hbytes')]

/-- A cut of a stream is accepted if it is between two parts of it, and else ends too soon. -/
theorem decode_cut {s : Stream} {more : ByteArray} (hs : s.bytes = (bytes ++ more).data.toList) :
    ((∃ n, bytes.size = (s.upTo n).bytes.length) →
      ∃ m, Motion.decode bytes = .ok m ∧ m.records = s.motion.records) ∧
    ((¬ ∃ n, bytes.size = (s.upTo n).bytes.length) → Truncated bytes) := by
  constructor
  · rintro ⟨n, hn⟩
    have happend := (s.upTo_bytes_append n).trans (hs.trans ByteArray.toList_data_append)
    exact ⟨_, decode_stream (List.append_inj happend hn.symm).1, rfl⟩
  · intro hno
    refine truncated_of_append (accepted_iff.mpr ⟨s, hs⟩) fun haccepted => hno ?_
    obtain ⟨s', hs'⟩ := accepted_iff.mp haccepted
    rw [ByteArray.toList_data_append, ← hs'] at hs
    obtain ⟨n, rfl⟩ := Stream.bytes_prefix_iff.mp ⟨_, hs.symm⟩
    exact ⟨n, congrArg List.length hs'.symm⟩

theorem decode_eq_badSignature_iff (hsize : 30 ≤ bytes.size) :
    Motion.decode bytes = .error .badSignature ↔ ¬ Layout.signature <+: bytes.data.toList := by
  refine ⟨fun h hsignature => ?_, decode_eq_badSignature hsize⟩
  rcases decode_cases hsize hsignature with ⟨m, h'⟩ | ⟨⟨part, offset, h'⟩, -⟩ | ⟨s, extra, -, -, -, h'⟩
  all_goals
    rw [h] at h'
    cases h'

theorem signature_isPrefix_iff :
    Layout.signature <+: bytes.data.toList ↔ bytes.data.toList.take 25 = Layout.signature := by
  rw [List.prefix_iff_eq_take, eq_comm]
  rfl

/-- **Why bytes are refused.** Bytes that are no stream lack a signature field, or have a wrong one, or end too soon, so
that a stream begins with them, or go on behind a whole stream. What a stream begins with is accepted, with the same
bone records, if it ends behind these or behind a section; it ends too soon if not. -/
theorem decode_error_exact (bytes : ByteArray) :
    (Accepted bytes ↔ ∃ s : Stream, s.bytes = bytes.data.toList) ∧
    (bytes.size < 30 → Truncated bytes) ∧
    (30 ≤ bytes.size →
      (Motion.decode bytes = .error .badSignature ↔ bytes.data.toList.take 25 ≠ Layout.signature) ∧
      (bytes.data.toList.take 25 = Layout.signature →
        (Truncated bytes ↔ ¬ Accepted bytes ∧ ∃ more : ByteArray, more.size ≠ 0 ∧ Accepted (bytes ++ more)))) ∧
    (∀ count, Motion.decode bytes = .error (.trailingBytes count) ↔
      0 < count ∧ ∃ (s : Stream) (extra : List UInt8), s.Whole ∧ bytes.data.toList = s.bytes ++ extra ∧
        extra.length = count) ∧
    (∀ part offset, Motion.decode bytes = .error (.truncated part offset) → offset ≤ bytes.size) ∧
    ∀ (s : Stream) (more : ByteArray), s.bytes = (bytes ++ more).data.toList →
      ((∃ n, bytes.size = (s.upTo n).bytes.length) →
        ∃ m, Motion.decode bytes = .ok m ∧ m.records = s.motion.records) ∧
      ((¬ ∃ n, bytes.size = (s.upTo n).bytes.length) → Truncated bytes) := by
  refine ⟨accepted_iff, truncated_of_size, fun hsize => ⟨?_, fun hsignature => ?_⟩, fun count =>
    decode_eq_trailingBytes_iff, fun part offset h => ?_, fun s more hs => decode_cut hs⟩
  · rw [decode_eq_badSignature_iff hsize, signature_isPrefix_iff]
  · exact truncated_iff hsize (signature_isPrefix_iff.mpr hsignature)
  · rcases decode_eq_error_iff.mp h with h | ⟨_, _, -, -, h⟩
    · simpa using (Stream.within_of_takeMotion h).2
    · cases h

end

/-- A cut inside a count, a cut behind the first section, and a byte too many. -/
theorem decode_error_toggleStream :
    (∃ more : ByteArray, more.size ≠ 0 ∧ Accepted (⟨(toggleStream.bytes.take 198).toArray⟩ ++ more)) ∧
    (∃ m, Motion.decode ⟨(toggleStream.upTo 1).bytes.toArray⟩ = .ok m ∧ m.records = toggleStream.motion.records) ∧
    Motion.decode ⟨(toggleStream.bytes ++ [0]).toArray⟩ = .error (.trailingBytes 1) := by
  refine ⟨?_, ?_, ?_⟩
  · have hcut : Truncated ⟨(toggleStream.bytes.take 198).toArray⟩ := ⟨.lightCount, 196, by decide +kernel⟩
    obtain ⟨-, -, hlong, -⟩ := decode_error_exact ⟨(toggleStream.bytes.take 198).toArray⟩
    exact (((hlong (by decide +kernel)).2 (by decide +kernel)).mp hcut).2
  · obtain ⟨-, -, -, -, -, hcut⟩ := decode_error_exact ⟨(toggleStream.upTo 1).bytes.toArray⟩
    refine (hcut toggleStream ⟨((toggleStream.sections.drop 1).map sectionBytes).flatten.toArray⟩ ?_).1 ⟨1, rfl⟩
    rw [ByteArray.toList_data_append]
    exact (toggleStream.upTo_bytes_append 1).symm
  · obtain ⟨-, -, -, htrailing, -⟩ := decode_error_exact ⟨(toggleStream.bytes ++ [0]).toArray⟩
    exact (htrailing 1).mpr ⟨by decide, toggleStream, [0], rfl, rfl, rfl⟩

end PoseLang

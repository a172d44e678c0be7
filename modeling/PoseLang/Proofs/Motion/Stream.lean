import Mathlib.Data.List.GetD
import PoseLang.Proofs.Motion.Parses

/-!
# The streams that can be read

`Stream` is the layout of a motion, cut into its fields and records. The rules of the layout are part of the
type: the signature field begins with the signature, each record has the bytes of its kind, and the sections
are those of the format, in its order, up to some section. `Stream.motion` says what a stream holds.

What is proved:

* the decoder reads the sections of a stream and no others (`takeSections_of`, `of_takeSections`);
* no record is the beginning of another of its kind (`SectionKind.prefixFree`), so bytes can be cut into a
  stream in one way (`Stream.eq_of_bytes`);
* the decoder gives a motion exactly for the bytes of a stream, the motion of that stream; a part that it
  finds cut off begins within the bytes (`decode_eq_ok_iff_stream`).
-/

namespace PoseLang

/-! ### The layout -/

/-- The bytes of a section: how many records, and the records. -/
def sectionBytes (records : List (List UInt8)) : List UInt8 :=
  Layout.wordBytes (.ofNat records.length) ++ records.flatten

/-- Records that a section can hold. -/
structure IsSection (isRecord : List UInt8 → Prop) (records : List (List UInt8)) : Prop where
  count : records.length < 2 ^ 32
  each : ∀ r ∈ records, isRecord r

/-- What the records of a section after the bone records are about. -/
inductive SectionKind where
  | morphs
  | cameras
  | lights
  | selfShadows
  | iks
deriving DecidableEq, Repr

namespace SectionKind

/-- The sections, in the order of a stream. -/
def all : List SectionKind := [morphs, cameras, lights, selfShadows, iks]

/-- The bytes are a record of the kind. -/
def IsRecord : SectionKind → List UInt8 → Prop
  | morphs, r => r.length = 23
  | cameras, r => r.length = 61
  | lights, r => r.length = 28
  | selfShadows, r => r.length = 9
  | iks, r => IsIk r

end SectionKind

/-- Sections of the kinds, in order, of which some at the end may be missing. -/
inductive AreSections : List SectionKind → List (List (List UInt8)) → Prop where
  | missing (kinds : List SectionKind) : AreSections kinds []
  | cons {kind : SectionKind} {kinds : List SectionKind} {records : List (List UInt8)}
      {sections : List (List (List UInt8))} (first : IsSection kind.IsRecord records)
      (later : AreSections kinds sections) : AreSections (kind :: kinds) (records :: sections)

/-- A stream, cut into its parts. -/
@[ext] structure Stream where
  signature : List UInt8
  modelName : List UInt8
  bones : List (List UInt8)
  sections : List (List (List UInt8))
  length_signature : signature.length = 30
  signature_start : Layout.signature <+: signature
  length_modelName : modelName.length = 20
  isSection_bones : IsSection (·.length = 111) bones
  areSections : AreSections SectionKind.all sections

namespace Stream

/-- The bytes of a stream. -/
def bytes (s : Stream) : List UInt8 :=
  s.signature ++ (s.modelName ++ (sectionBytes s.bones ++ (s.sections.map sectionBytes).flatten))

/-- No section is missing. -/
def Whole (s : Stream) : Prop := s.sections.length = SectionKind.all.length

/-- How many records of a kind a stream has: none, if the section is missing. -/
def count (s : Stream) (kind : SectionKind) : UInt32 :=
  .ofNat (s.sections.getD (SectionKind.all.idxOf kind) []).length

/-- The motion that a stream holds. -/
def motion (s : Stream) : Motion where
  modelName := fieldName s.modelName
  records := s.bones.map BoneRecord.ofBytes
  morphs := s.count .morphs
  cameras := s.count .cameras
  lights := s.count .lights
  selfShadows := s.count .selfShadows
  iks := s.count .iks

end Stream

/-! ### Sections -/

theorem isSection_iff {isRecord : List UInt8 → Prop} {records : List (List UInt8)} :
    IsSection isRecord records ↔ ∃ w : UInt32, IsRun isRecord w.toNat records := by
  constructor
  · intro h
    exact ⟨.ofNat records.length, (UInt32.toNat_ofNat_of_lt' h.count).symm, h.each⟩
  · rintro ⟨w, hw⟩
    exact ⟨hw.count ▸ w.toNat_lt, hw.each⟩

theorem ofNat_count {isRecord : List UInt8 → Prop} {records : List (List UInt8)} {w : UInt32}
    (h : IsRun isRecord w.toNat records) : UInt32.ofNat records.length = w := by
  rw [h.count, UInt32.ofNat_toNat]

/-- A count, and as many records as it says. -/
theorem parses_section {β : Type} {isRecord : List UInt8 → Prop} {value : List (List UInt8) → β → Prop}
    {f : UInt32 → Decoder β} (part : StreamPart)
    (hf : ∀ w, Parses (f w) fun bytes b =>
      ∃ records, IsRun isRecord w.toNat records ∧ bytes = records.flatten ∧ value records b) :
    Parses (takeWord part >>= f) fun bytes b =>
      ∃ records, IsSection isRecord records ∧ bytes = sectionBytes records ∧ value records b := by
  refine ((parses_takeWord part).bind hf).congr fun bytes b => ?_
  simp only [isSection_iff, sectionBytes]
  constructor
  · rintro ⟨_, _, w, rfl, ⟨records, hrun, rfl, hvalue⟩, rfl⟩
    exact ⟨records, ⟨w, hrun⟩, by rw [ofNat_count hrun], hvalue⟩
  · rintro ⟨records, ⟨w, hrun⟩, rfl, hvalue⟩
    exact ⟨_, _, w, rfl, ⟨records, hrun, rfl, hvalue⟩, by rw [ofNat_count hrun]⟩

namespace SectionKind

/-- The part of a stream that counts the records of the kind. -/
def countPart : SectionKind → StreamPart
  | morphs => .morphCount
  | cameras => .cameraCount
  | lights => .lightCount
  | selfShadows => .selfShadowCount
  | iks => .ikCount

/-- Skips records of the kind. -/
def skipRecords : SectionKind → Nat → Decoder Unit
  | morphs, n => skip .morphs (n * Layout.morphSize)
  | cameras, n => skip .cameras (n * Layout.cameraSize)
  | lights, n => skip .lights (n * Layout.lightSize)
  | selfShadows, n => skip .selfShadows (n * Layout.selfShadowSize)
  | iks, n => skipIks n

theorem parses_skipRecords (kind : SectionKind) (n : Nat) :
    Parses (kind.skipRecords n) fun bytes _ =>
      ∃ records, IsRun kind.IsRecord n records ∧ bytes = records.flatten := by
  cases kind with
  | morphs => exact parses_skip_run .morphs Layout.morphSize n
  | cameras => exact parses_skip_run .cameras Layout.cameraSize n
  | lights => exact parses_skip_run .lights Layout.lightSize n
  | selfShadows => exact parses_skip_run .selfShadows Layout.selfShadowSize n
  | iks => exact parses_skipIks n

/-- A section that is there. -/
theorem parses_present (kind : SectionKind) :
    Parses (do let n ← takeWord kind.countPart; kind.skipRecords n.toNat; return n) fun bytes n =>
      ∃ records, IsSection kind.IsRecord records ∧ bytes = sectionBytes records ∧ n = .ofNat records.length := by
  refine parses_section kind.countPart fun w => ?_
  refine ((kind.parses_skipRecords w.toNat).map fun _ => w).congr fun bytes n => ?_
  constructor
  · rintro ⟨_, ⟨records, hrun, rfl⟩, rfl⟩
    exact ⟨records, hrun, rfl, (ofNat_count hrun).symm⟩
  · rintro ⟨records, hrun, rfl, rfl⟩
    exact ⟨(), ⟨records, hrun, rfl⟩, ofNat_count hrun⟩

end SectionKind

/-- Reads sections one after the other. -/
def takeSections : List SectionKind → Decoder (List UInt32)
  | [] => return []
  | kind :: kinds => do
    let n ← takeSection kind.countPart kind.skipRecords
    let ns ← takeSections kinds
    return n :: ns

theorem takeSection_missing (kind : SectionKind) (offset : Nat) :
    takeSection kind.countPart kind.skipRecords ⟨offset, []⟩ = .ok (0, ⟨offset, []⟩) := rfl

theorem takeSection_present (kind : SectionKind) {c : Cursor} (h : c.rest ≠ []) :
    takeSection kind.countPart kind.skipRecords c =
      (do let n ← takeWord kind.countPart; kind.skipRecords n.toNat; return n : Decoder UInt32) c :=
  if_neg (by simpa using h)

/-- At the end of a stream all sections are missing. -/
theorem takeSections_missing (kinds : List SectionKind) (offset : Nat) :
    takeSections kinds ⟨offset, []⟩ = .ok (kinds.map fun _ => 0, ⟨offset, []⟩) := by
  induction kinds with
  | nil => rfl
  | cons kind kinds ih =>
    refine decoder_bind_eq_ok_iff.mpr ⟨0, _, takeSection_missing kind offset, ?_⟩
    exact decoder_bind_eq_ok_iff.mpr ⟨_, _, ih, rfl⟩

/-- The numbers are the counts of the sections, zero for one that is missing. -/
def AreCounts (sections : List (List (List UInt8))) (ns : List UInt32) : Prop :=
  ∀ i, ns.getD i 0 = .ofNat (sections.getD i []).length

theorem areCounts_missing (kinds : List SectionKind) : AreCounts [] (kinds.map fun _ => 0) := by
  intro i
  simp [List.getD]

theorem AreCounts.cons {sections : List (List (List UInt8))} {ns : List UInt32} (h : AreCounts sections ns)
    (records : List (List UInt8)) : AreCounts (records :: sections) (.ofNat records.length :: ns) := by
  intro i
  cases i with
  | zero => rfl
  | succ i => exact h i

theorem sectionBytes_ne_nil (records : List (List UInt8)) : sectionBytes records ≠ [] := nofun

/-- Sections that end the stream are read. -/
theorem takeSections_of {kinds : List SectionKind} {sections : List (List (List UInt8))}
    (h : AreSections kinds sections) (offset : Nat) :
    ∃ ns, takeSections kinds ⟨offset, (sections.map sectionBytes).flatten⟩ =
        .ok (ns, ⟨offset + (sections.map sectionBytes).flatten.length, []⟩) ∧ AreCounts sections ns := by
  induction h generalizing offset with
  | missing kinds => exact ⟨_, takeSections_missing kinds offset, areCounts_missing kinds⟩
  | @cons kind kinds records sections first later ih =>
    obtain ⟨ns, hns, hcounts⟩ := ih (offset + (sectionBytes records).length)
    have hread := kind.parses_present.reads ⟨records, first, rfl, rfl⟩ offset (sections.map sectionBytes).flatten
    rw [← takeSection_present kind (by simp [sectionBytes_ne_nil])] at hread
    refine ⟨_, ?_, hcounts.cons records⟩
    rw [List.map_cons, List.flatten_cons, List.length_append, ← Nat.add_assoc]
    exact decoder_bind_eq_ok_iff.mpr ⟨_, _, hread, decoder_bind_eq_ok_iff.mpr ⟨ns, _, hns, rfl⟩⟩

/-- What is read as sections are sections. Where bytes are left none is missing. -/
theorem of_takeSections {kinds : List SectionKind} {c c' : Cursor} {ns : List UInt32}
    (h : takeSections kinds c = .ok (ns, c')) :
    ∃ sections, AreSections kinds sections ∧ AreCounts sections ns ∧
      c.rest = (sections.map sectionBytes).flatten ++ c'.rest ∧
      c'.offset = c.offset + (sections.map sectionBytes).flatten.length ∧
      (c'.rest ≠ [] → sections.length = kinds.length) := by
  induction kinds generalizing c ns with
  | nil =>
    cases h
    exact ⟨[], .missing [], areCounts_missing [], rfl, rfl, fun _ => rfl⟩
  | cons kind kinds ih =>
    -- Where the stream ends, this section and all that come later are missing.
    by_cases hrest : c.rest = []
    · obtain ⟨offset, rest⟩ := c
      subst hrest
      rw [takeSections_missing] at h
      cases h
      exact ⟨[], .missing _, areCounts_missing _, rfl, rfl, fun h => absurd rfl h⟩
    · obtain ⟨n, c₁, hfirst, h⟩ := decoder_bind_eq_ok_iff.mp h
      obtain ⟨ns, c₂, hlater, h⟩ := decoder_bind_eq_ok_iff.mp h
      cases h
      rw [takeSection_present kind hrest] at hfirst
      obtain ⟨_, ⟨records, hrecords, rfl, rfl⟩, hbytes, hoffset⟩ := kind.parses_present.of_ok hfirst
      obtain ⟨sections, hsections, hcounts, hbytes', hoffset', hlength⟩ := ih hlater
      refine ⟨records :: sections, .cons hrecords hsections, hcounts.cons records, ?_, ?_,
        fun h => congrArg (· + 1) (hlength h)⟩
      · rw [hbytes, hbytes', List.map_cons, List.flatten_cons, List.append_assoc]
      · rw [hoffset', hoffset, List.map_cons, List.flatten_cons, List.length_append, Nat.add_assoc]

/-- Sections cannot be read because the first cannot, or because it can and those behind it cannot. At the end of a
stream there is no error. -/
theorem of_takeSections_cons_error {kind : SectionKind} {kinds : List SectionKind} {c : Cursor} {e : DecodeError}
    (h : takeSections (kind :: kinds) c = .error e) :
    (do let n ← takeWord kind.countPart; kind.skipRecords n.toNat; return n : Decoder UInt32) c = .error e ∨
    ∃ n c₁, (do let n ← takeWord kind.countPart; kind.skipRecords n.toNat; return n : Decoder UInt32) c = .ok (n, c₁) ∧
      takeSections kinds c₁ = .error e := by
  by_cases hrest : c.rest = []
  · obtain ⟨offset, rest⟩ := c
    subst hrest
    rw [takeSections_missing] at h
    cases h
  · rw [← takeSection_present kind hrest]
    rcases decoder_bind_eq_error_iff.mp h with h | ⟨n, c₁, hfirst, h⟩
    · exact .inl h
    · rcases decoder_bind_eq_error_iff.mp h with h | ⟨ns, c₂, -, h⟩
      · exact .inr ⟨n, c₁, hfirst, h⟩
      · cases h

theorem within_of_takeSections {kinds : List SectionKind} {c : Cursor} {e : DecodeError}
    (h : takeSections kinds c = .error e) : e.Within c := by
  induction kinds generalizing c with
  | nil => cases h
  | cons kind kinds ih =>
    rcases of_takeSections_cons_error h with h | ⟨n, c₁, hfirst, h⟩
    · exact kind.parses_present.of_error h
    · obtain ⟨x, -, hbytes, hoffset⟩ := kind.parses_present.of_ok hfirst
      exact (ih h).of_append hbytes hoffset

/-! ### Whole streams -/

/-- Reads up to the last bone record. -/
def takeBones : Decoder (List UInt8 × List BoneRecord) := do
  let start ← takeBytes .signature Layout.signatureSize
  unless Layout.signature.isPrefixOf start do
    throw .badSignature
  let modelName ← takeBytes .modelName Layout.modelNameSize
  let count ← takeWord .boneCount
  let records ← takeRecords count.toNat []
  return (modelName, records)

theorem takeMotion_eq : takeMotion = do
    let (modelName, records) ← takeBones
    let counts ← takeSections SectionKind.all
    return ⟨fieldName modelName, records, counts.getD 0 0, counts.getD 1 0, counts.getD 2 0, counts.getD 3 0,
      counts.getD 4 0⟩ := by
  unfold takeMotion takeBones
  simp only [bind_assoc]
  refine bind_congr fun start => ?_
  split
  · simp only [takeSections, SectionKind.all, bind_assoc, pure_bind]
    rfl
  · rfl

theorem parses_boneSection (modelName : List UInt8) :
    Parses (do
      let count ← takeWord .boneCount
      let records ← takeRecords count.toNat []
      return (modelName, records)) fun bytes front =>
        ∃ bones, IsSection (·.length = 111) bones ∧ bytes = sectionBytes bones ∧
          front = (modelName, bones.map BoneRecord.ofBytes) := by
  refine parses_section .boneCount fun w => ?_
  refine ((parses_takeRecords w.toNat []).map fun records => (modelName, records)).congr fun bytes front => ?_
  constructor
  · rintro ⟨_, ⟨bones, hbones, rfl, rfl⟩, rfl⟩
    exact ⟨bones, hbones, rfl, rfl⟩
  · rintro ⟨bones, hbones, rfl, rfl⟩
    exact ⟨_, ⟨bones, hbones, rfl, rfl⟩, rfl⟩

/-- The front of a stream: the signature, the name of the model and the bone records. -/
theorem parses_takeBones : Parses takeBones fun bytes front =>
    ∃ start modelName bones, start.length = 30 ∧ Layout.signature <+: start ∧ modelName.length = 20 ∧
      IsSection (·.length = 111) bones ∧ bytes = start ++ (modelName ++ sectionBytes bones) ∧
      front = (modelName, bones.map BoneRecord.ofBytes) := by
  have hparses := (fixed_takeBytes .signature 30).parses.bind fun start =>
    ((fixed_takeBytes .modelName 20).parses.bind parses_boneSection).demand (Layout.signature.isPrefixOf start = true)
  refine hparses.congr fun bytes front => ?_
  simp only [List.isPrefixOf_iff_prefix]
  constructor
  · rintro ⟨_, _, start, ⟨hlength, rfl⟩, ⟨hstart, _, _, modelName, ⟨hname, rfl⟩, ⟨bones, hbones, rfl, rfl⟩, rfl⟩, rfl⟩
    exact ⟨_, _, bones, hlength, hstart, hname, hbones, rfl, rfl⟩
  · rintro ⟨start, modelName, bones, hlength, hstart, hname, hbones, rfl, rfl⟩
    refine ⟨start, _, start, ⟨hlength, rfl⟩, ⟨hstart, ?_⟩, rfl⟩
    exact ⟨modelName, _, modelName, ⟨hname, rfl⟩, ⟨bones, hbones, rfl, rfl⟩, rfl⟩

namespace Stream

theorem motion_eq {s : Stream} {ns : List UInt32} (h : AreCounts s.sections ns) : s.motion =
    ⟨fieldName s.modelName, s.bones.map BoneRecord.ofBytes, ns.getD 0 0, ns.getD 1 0, ns.getD 2 0, ns.getD 3 0,
      ns.getD 4 0⟩ := by
  rw [h 0, h 1, h 2, h 3, h 4]
  rfl

/-- The bytes of a stream are read to their end. -/
theorem takeMotion_bytes (s : Stream) : takeMotion ⟨0, s.bytes⟩ = .ok (s.motion, ⟨s.bytes.length, []⟩) := by
  obtain ⟨ns, hns, hcounts⟩ := takeSections_of s.areSections
    (s.signature ++ (s.modelName ++ sectionBytes s.bones)).length
  have hfront := parses_takeBones.reads ⟨s.signature, s.modelName, s.bones, s.length_signature, s.signature_start,
    s.length_modelName, s.isSection_bones, rfl, rfl⟩ 0 (s.sections.map sectionBytes).flatten
  have hbytes : s.bytes =
      s.signature ++ (s.modelName ++ sectionBytes s.bones) ++ (s.sections.map sectionBytes).flatten := by
    simp only [bytes, List.append_assoc]
  rw [takeMotion_eq, motion_eq hcounts, hbytes, List.length_append]
  refine decoder_bind_eq_ok_iff.mpr ⟨_, _, hfront, ?_⟩
  rw [Nat.zero_add]
  exact decoder_bind_eq_ok_iff.mpr ⟨ns, _, hns, rfl⟩

/-- What is read as a motion is a stream. Where bytes are left it is whole. -/
theorem of_takeMotion {c c' : Cursor} {m : Motion} (h : takeMotion c = .ok (m, c')) :
    ∃ s : Stream, s.motion = m ∧ c.rest = s.bytes ++ c'.rest ∧ c'.offset = c.offset + s.bytes.length ∧
      (c'.rest ≠ [] → s.Whole) := by
  rw [takeMotion_eq] at h
  obtain ⟨_, c₁, hfront, h⟩ := decoder_bind_eq_ok_iff.mp h
  obtain ⟨ns, c₂, hsections, h⟩ := decoder_bind_eq_ok_iff.mp h
  cases h
  obtain ⟨_, ⟨start, modelName, bones, hlength, hstart, hname, hbones, rfl, rfl⟩, hrest, hoffset⟩ :=
    parses_takeBones.of_ok hfront
  obtain ⟨sections, hsections, hcounts, hrest', hoffset', hwhole⟩ := of_takeSections hsections
  refine ⟨⟨start, modelName, bones, sections, hlength, hstart, hname, hbones, hsections⟩, motion_eq hcounts, ?_, ?_,
    hwhole⟩
  · rw [hrest, hrest']
    simp only [bytes, List.append_assoc]
  · rw [hoffset', hoffset]
    simp only [bytes, List.length_append]
    omega

theorem within_of_takeMotion {c : Cursor} {e : DecodeError} (h : takeMotion c = .error e) : e.Within c := by
  rw [takeMotion_eq] at h
  rcases decoder_bind_eq_error_iff.mp h with h | ⟨_, c₁, hfront, h⟩
  · exact parses_takeBones.of_error h
  · obtain ⟨x, -, hrest, hoffset⟩ := parses_takeBones.of_ok hfront
    rcases decoder_bind_eq_error_iff.mp h with h | ⟨_, _, -, h⟩
    · exact (within_of_takeSections h).of_append hrest hoffset
    · cases h

end Stream

/-! ### One way to cut -/

/-- No record is the beginning of another. -/
def PrefixFree (isRecord : List UInt8 → Prop) : Prop :=
  ∀ r r' x x', isRecord r → isRecord r' → r ++ x = r' ++ x' → r = r' ∧ x = x'

theorem prefixFree_of_reads {α : Type} {isRecord : List UInt8 → Prop} (d : Decoder α)
    (h : ∀ r, isRecord r → ∃ a, Reads d r a) : PrefixFree isRecord := by
  intro r r' x x' hr hr' heq
  obtain ⟨a, ha⟩ := h r hr
  obtain ⟨a', ha'⟩ := h r' hr'
  -- The decoder is given the same bytes, so what it leaves is the same.
  have hread := ha 0 x
  rw [heq, ha' 0 x'] at hread
  simp only [Except.ok.injEq, Prod.mk.injEq, Cursor.mk.injEq] at hread
  obtain ⟨-, -, rfl⟩ := hread
  exact ⟨List.append_cancel_right heq, rfl⟩

theorem SectionKind.prefixFree (kind : SectionKind) : PrefixFree kind.IsRecord := by
  refine prefixFree_of_reads (kind.skipRecords 1) fun r hr => ⟨(), ?_⟩
  exact (kind.parses_skipRecords 1).reads ⟨[r], ⟨rfl, by simpa using hr⟩, by simp⟩

theorem prefixFree_bone : PrefixFree (·.length = 111) :=
  prefixFree_of_reads takeRecord fun _ hr => ⟨_, fixed_takeRecord.reads hr⟩

/-- Runs of as many records are the same if they begin the same stream. -/
theorem IsRun.append_inj {isRecord : List UInt8 → Prop} (hfree : PrefixFree isRecord) {n : Nat}
    {records records' : List (List UInt8)} {x x' : List UInt8} (h : IsRun isRecord n records)
    (h' : IsRun isRecord n records') (heq : records.flatten ++ x = records'.flatten ++ x') :
    records = records' ∧ x = x' := by
  induction n generalizing records records' with
  | zero =>
    rw [IsRun.zero_iff] at h h'
    subst h h'
    exact ⟨rfl, heq⟩
  | succ n ih =>
    obtain ⟨r, rs, hr, hrs, rfl⟩ := IsRun.succ_iff.mp h
    obtain ⟨r', rs', hr', hrs', rfl⟩ := IsRun.succ_iff.mp h'
    rw [List.flatten_cons, List.flatten_cons, List.append_assoc, List.append_assoc] at heq
    obtain ⟨rfl, hrest⟩ := hfree r r' _ _ hr hr' heq
    obtain ⟨rfl, rfl⟩ := ih hrs hrs' hrest
    exact ⟨rfl, rfl⟩

theorem IsSection.append_inj {isRecord : List UInt8 → Prop} (hfree : PrefixFree isRecord)
    {records records' : List (List UInt8)} {x x' : List UInt8} (h : IsSection isRecord records)
    (h' : IsSection isRecord records') (heq : sectionBytes records ++ x = sectionBytes records' ++ x') :
    records = records' ∧ x = x' := by
  obtain ⟨w, hw⟩ := isSection_iff.mp h
  obtain ⟨w', hw'⟩ := isSection_iff.mp h'
  unfold sectionBytes at heq
  rw [ofNat_count hw, ofNat_count hw', List.append_assoc, List.append_assoc] at heq
  have hword := reads_takeWord .boneCount w 0 (records.flatten ++ x)
  rw [heq, reads_takeWord .boneCount w' 0 (records'.flatten ++ x')] at hword
  injection hword with hword
  obtain rfl : w' = w := congrArg Prod.fst hword
  exact hw.append_inj hfree hw' (List.append_cancel_left heq)

/-- Bytes can be cut into sections in one way. -/
theorem AreSections.inj {kinds : List SectionKind} {sections sections' : List (List (List UInt8))}
    (h : AreSections kinds sections) (h' : AreSections kinds sections')
    (heq : (sections.map sectionBytes).flatten = (sections'.map sectionBytes).flatten) : sections = sections' := by
  induction h generalizing sections' with
  | missing kinds =>
    cases h' with
    | missing => rfl
    | cons => cases heq
  | cons first later ih =>
    cases h' with
    | missing => cases heq
    | cons first' later' =>
      rw [List.map_cons, List.map_cons, List.flatten_cons, List.flatten_cons] at heq
      obtain ⟨rfl, hrest⟩ := first.append_inj (SectionKind.prefixFree _) first' heq
      rw [ih later' hrest]

theorem Stream.eq_of_bytes {s s' : Stream} (h : s.bytes = s'.bytes) : s = s' := by
  unfold Stream.bytes at h
  obtain ⟨hsignature, h⟩ := List.append_inj h (s.length_signature.trans s'.length_signature.symm)
  obtain ⟨hname, h⟩ := List.append_inj h (s.length_modelName.trans s'.length_modelName.symm)
  obtain ⟨hbones, h⟩ := s.isSection_bones.append_inj prefixFree_bone s'.isSection_bones h
  exact Stream.ext hsignature hname hbones (s.areSections.inj s'.areSections h)

/-! ### Decoding -/

theorem decode_eq_ok_iff {bytes : ByteArray} {m : Motion} :
    Motion.decode bytes = .ok m ↔ ∃ offset, takeMotion ⟨0, bytes.data.toList⟩ = .ok (m, ⟨offset, []⟩) := by
  unfold Motion.decode
  rcases takeMotion ⟨0, bytes.data.toList⟩ with e | ⟨m', offset, rest⟩
  · simp
  · cases rest <;> simp

theorem decode_eq_error_iff {bytes : ByteArray} {e : DecodeError} :
    Motion.decode bytes = .error e ↔ takeMotion ⟨0, bytes.data.toList⟩ = .error e ∨
      ∃ m c, takeMotion ⟨0, bytes.data.toList⟩ = .ok (m, c) ∧ c.rest ≠ [] ∧ e = .trailingBytes c.rest.length := by
  unfold Motion.decode
  rcases takeMotion ⟨0, bytes.data.toList⟩ with e | ⟨m', offset, rest⟩
  · simp
  · cases rest <;> simp [eq_comm]

/-- **The decoder gives a motion exactly for the bytes of a stream**, which can be cut in one way, and it never
reads beyond the bytes. -/
theorem decode_eq_ok_iff_stream (bytes : ByteArray) :
    (∀ m, Motion.decode bytes = .ok m ↔ ∃ s : Stream, s.bytes = bytes.data.toList ∧ s.motion = m) ∧
    (∀ s s' : Stream, s.bytes = bytes.data.toList → s'.bytes = bytes.data.toList → s = s') ∧
    (∀ part offset, Motion.decode bytes = .error (.truncated part offset) → offset ≤ bytes.size) ∧
    ∀ count, Motion.decode bytes = .error (.trailingBytes count) →
      ∃ s : Stream, s.bytes <+: bytes.data.toList ∧ s.bytes.length + count = bytes.size := by
  have hsize : bytes.size = bytes.data.toList.length := rfl
  refine ⟨fun m => ?_, fun s s' hs hs' => Stream.eq_of_bytes (hs.trans hs'.symm), ?_, ?_⟩
  · rw [decode_eq_ok_iff]
    constructor
    · rintro ⟨offset, h⟩
      obtain ⟨s, rfl, hbytes, -⟩ := Stream.of_takeMotion h
      exact ⟨s, by simpa using hbytes.symm, rfl⟩
    · rintro ⟨s, hs, rfl⟩
      exact ⟨_, hs ▸ s.takeMotion_bytes⟩
  · intro part offset h
    rcases decode_eq_error_iff.mp h with h | ⟨_, _, -, -, h⟩
    · have hwithin := (Stream.within_of_takeMotion h).2
      simpa using hwithin
    · cases h
  · intro count h
    rcases decode_eq_error_iff.mp h with h | ⟨_, c, htake, -, hcount⟩
    · exact (Stream.within_of_takeMotion h).elim
    · cases hcount
      obtain ⟨s, -, hbytes, -⟩ := Stream.of_takeMotion htake
      refine ⟨s, ⟨c.rest, hbytes.symm⟩, ?_⟩
      rw [hsize, ← List.length_append]
      exact congrArg List.length hbytes.symm

/-- A stream with a bone, a morph and an inverse-kinematics record that has a toggle. -/
def toggleStream : Stream where
  signature := Layout.padded 30 Layout.signature
  modelName := Layout.padded 20 [77]
  bones := [List.replicate 111 1]
  sections := [[List.replicate 23 2], [], [], [], [List.replicate 5 3 ++ (Layout.wordBytes 1 ++ List.replicate 21 4)]]
  length_signature := by decide
  signature_start := ⟨List.replicate 5 0, by decide⟩
  length_modelName := by decide
  isSection_bones := ⟨by decide, by simp⟩
  areSections := by
    refine .cons ⟨by decide, by simp [SectionKind.IsRecord]⟩ ?_
    refine .cons ⟨by decide, nofun⟩ (.cons ⟨by decide, nofun⟩ (.cons ⟨by decide, nofun⟩ ?_))
    refine .cons ⟨by decide, ?_⟩ (.missing [])
    simpa using ⟨List.replicate 5 3, List.replicate 21 4, 1, rfl, rfl, rfl⟩

theorem decode_toggleStream :
    Motion.decode ⟨toggleStream.bytes.toArray⟩ = .ok toggleStream.motion ∧
    (∀ s : Stream, s.bytes = toggleStream.bytes → s = toggleStream) ∧
    (Motion.decode ⟨(toggleStream.bytes.take 198).toArray⟩ = .error (.truncated .lightCount 196) ∧ 196 ≤ 198) ∧
    Motion.decode ⟨(toggleStream.bytes ++ [0]).toArray⟩ = .error (.trailingBytes 1) ∧
      ∃ s : Stream, s.bytes <+: toggleStream.bytes ++ [0] := by
  have hcut : Motion.decode ⟨(toggleStream.bytes.take 198).toArray⟩ = .error (.truncated .lightCount 196) := by
    decide +kernel
  have htrailing : Motion.decode ⟨(toggleStream.bytes ++ [0]).toArray⟩ = .error (.trailingBytes 1) := by
    decide +kernel
  have hwhole := decode_eq_ok_iff_stream ⟨toggleStream.bytes.toArray⟩
  refine ⟨(hwhole.1 _).mpr ⟨toggleStream, rfl, rfl⟩, fun s hs => hwhole.2.1 s toggleStream hs rfl, ⟨hcut, ?_⟩,
    htrailing, ?_⟩
  · exact (decode_eq_ok_iff_stream _).2.2.1 _ _ hcut
  · obtain ⟨s, hs, -⟩ := (decode_eq_ok_iff_stream _).2.2.2 _ htrailing
    exact ⟨s, hs⟩

end PoseLang

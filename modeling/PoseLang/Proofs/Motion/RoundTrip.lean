import Mathlib.Data.List.TakeWhile
import PoseLang.Motion.Encode
import PoseLang.Proofs.Lists
import PoseLang.Proofs.Motion.Decode
import PoseLang.Proofs.Motion.Frames
import PoseLang.Proofs.Text.ShiftJis

/-!
# Reading undoes writing

A timeline that can be written is read back: the stream has the size its records need, and
decoding it gives for each posed bone, in the order of the bones, one record for each keyframe.

The writer and the reader meet in `BoneRecord.bytes`: what is written for a keyframe are the bytes
of a record (`recordBytes_eq`), and those bytes are read as the record. A run of bones is a run of
records by induction on the bones (`foldlM_appendBone`), and `encode_eq_ok` says all that a
successful writing did.
-/

namespace PoseLang

/-! ### Names -/

theorem nameField_eq_ok_iff {field : NameField} {size : Nat} {text : String} {bytes : List UInt8} :
    nameField field size text = .ok bytes ↔
      ∃ code, ShiftJis.encode? text = some code ∧ code.length ≤ size ∧ bytes = Layout.padded size code := by
  unfold nameField
  constructor
  · intro h
    split at h
    · cases h
    next code hcode =>
      split at h
      · cases h
      next hlt =>
        cases h
        exact ⟨code, hcode, Nat.le_of_not_lt hlt, rfl⟩
  · rintro ⟨code, hcode, hle, rfl⟩
    rw [hcode]
    exact if_neg (Nat.not_lt.2 hle)

theorem length_padded {size : Nat} {bytes : List UInt8} (h : bytes.length ≤ size) :
    (Layout.padded size bytes).length = size := by
  rw [Layout.padded, List.length_append, List.length_replicate]
  omega

/-- The padding of a field is cut off, and what follows a zero in the name is cut off too. -/
theorem fieldName_padded (size : Nat) (code : List UInt8) :
    fieldName (Layout.padded size code) = ShiftJis.decode (code.takeWhile (· ≠ 0)) := by
  unfold fieldName Layout.padded
  congr 1
  rw [List.takeWhile_append]
  split
  next hall =>
    have hcode : code.takeWhile (· ≠ 0) = code :=
      (List.takeWhile_prefix _).eq_of_length hall
    rw [hcode]
    cases size - code.length <;> simp [List.replicate_succ]
  · rfl

/-- The names of the bones have none of the characters that change when they are read back. -/
theorem Bone.readBack_playerName (b : Bone) :
    ∀ c ∈ b.playerName.toList, c ≠ '\x00' ∧ ShiftJis.readBack c = c := by
  have hall : b.playerName.toList.all (fun c => decide (c ≠ '\x00' ∧ ShiftJis.readBack c = c)) = true := by
    cases b with
    | paired limb side => cases limb <;> cases side <;> decide +kernel
    | _ => decide +kernel
  exact fun c hc => of_decide_eq_true (List.all_eq_true.mp hall c hc)

/-- A bone's name is read back from its field. -/
theorem fieldName_bone {b : Bone} {bytes : List UInt8}
    (h : nameField .bone Layout.boneNameSize b.playerName = .ok bytes) : fieldName bytes = b.playerName := by
  obtain ⟨code, hcode, -, rfl⟩ := nameField_eq_ok_iff.1 h
  have hzero : 0 ∉ code :=
    ShiftJis.ne_zero_of_encode? hcode fun hmem => (b.readBack_playerName _ hmem).1 rfl
  have hcut : code.takeWhile (· ≠ 0) = code := by
    rw [List.takeWhile_eq_self_iff]
    intro byte hmem
    simpa using fun hbyte : byte = 0 => hzero (hbyte ▸ hmem)
  have hread : b.playerName.toList.map ShiftJis.readBack = b.playerName.toList := by
    conv_rhs => rw [← List.map_id b.playerName.toList]
    exact List.map_congr_left fun c hc => (b.readBack_playerName c hc).2
  rw [fieldName_padded, hcut, ShiftJis.decode_of_encode? hcode, hread, String.ofList_toList]

/-! ### Records -/

/-- The record of a bone at a frame: its shift and its rotation in single precision. -/
def Transform.record (t : Transform) (b : Bone) (frame : Nat) : BoneRecord where
  boneName := b.playerName
  frame := .ofNat frame
  shift := ⟨.ofFloat t.shift.x, .ofFloat t.shift.y, .ofFloat t.shift.z⟩
  rotation :=
    ⟨.ofFloat t.rotation.x, .ofFloat t.rotation.y, .ofFloat t.rotation.z, .ofFloat t.rotation.w⟩
  interpolation := Layout.linearInterpolation

/-- The records of one bone, one for each keyframe. -/
def Timeline.boneRecords (t : Timeline) (frames : List Nat) (b : Bone) : List BoneRecord :=
  (t.keyframes.zip frames).map fun (k, frame) => (k.pose.bone b).record b frame

theorem recordBytes_eq (name : List UInt8) (frame : Nat) (t : Transform) (b : Bone) :
    recordBytes name frame t = (t.record b frame).bytes name := by
  simp [recordBytes, BoneRecord.bytes, Transform.record, singleBytes]

theorem toList_appendBytes (out : ByteArray) (bytes : List UInt8) :
    (appendBytes out bytes).data.toList = out.data.toList ++ bytes := by
  unfold appendBytes
  induction bytes generalizing out with
  | nil => simp
  | cons b bytes ih => simp [ih, ByteArray.data_push]

/-- What is written for some keyframes are the bytes of their records. -/
theorem toList_foldl_record (name : List UInt8) (b : Bone) (ks : List (PlayedKeyframe × Nat)) (out : ByteArray) :
    (ks.foldl (fun out (k, frame) => appendBytes out (recordBytes name frame (k.pose.bone b))) out).data.toList =
      out.data.toList ++ (ks.map fun (k, frame) => ((k.pose.bone b).record b frame).bytes name).flatten := by
  induction ks generalizing out with
  | nil => simp
  | cons k ks ih =>
    rw [List.foldl_cons, ih, toList_appendBytes, recordBytes_eq _ _ _ b, List.map_cons, List.flatten_cons,
      List.append_assoc]

/-- These pieces of a stream are records: each is read as its record, and has the size of one. -/
def AreRecords (parts : List (List UInt8)) (records : List BoneRecord) : Prop :=
  List.Forall₂ (fun part record => Reads takeRecord part record ∧ part.length = 111) parts records

theorem AreRecords.length_flatten {parts : List (List UInt8)} {records : List BoneRecord}
    (h : AreRecords parts records) : parts.flatten.length = 111 * records.length := by
  induction h with
  | nil => rfl
  | cons hr _ ih =>
    rw [List.flatten_cons, List.length_append, ih, hr.2, List.length_cons]
    omega

/-- One bone: after what was written come the records of the bone. -/
theorem appendBone_eq_ok {t : Timeline} {frames : List Nat} {out out' : ByteArray} {b : Bone}
    (h : appendBone t frames out b = .ok out') :
    ∃ parts, AreRecords parts (t.boneRecords frames b) ∧
      out'.data.toList = out.data.toList ++ parts.flatten := by
  obtain ⟨name, hname, h⟩ := bind_eq_ok_iff.mp h
  cases h
  refine ⟨_, ?_, toList_foldl_record name b _ out⟩
  have hlength : name.length = Layout.boneNameSize := by
    obtain ⟨code, -, hcode, rfl⟩ := nameField_eq_ok_iff.1 hname
    exact length_padded hcode
  unfold AreRecords Timeline.boneRecords
  rw [List.forall₂_map_left_iff, List.forall₂_map_right_iff, List.forall₂_same]
  rintro ⟨k, frame⟩ -
  refine ⟨reads_takeRecord hlength (fieldName_bone hname) ?_, BoneRecord.length_bytes hlength ?_⟩
  all_goals exact Layout.length_linearInterpolation

/-- All bones: the records of one bone after those of the other. -/
theorem foldlM_appendBone {t : Timeline} {frames : List Nat} {bones : List Bone} {out out' : ByteArray}
    (h : bones.foldlM (appendBone t frames) out = .ok out') :
    ∃ parts, AreRecords parts (bones.flatMap (t.boneRecords frames)) ∧
      out'.data.toList = out.data.toList ++ parts.flatten := by
  induction bones generalizing out with
  | nil =>
    cases h
    exact ⟨[], .nil, by simp⟩
  | cons b bones ih =>
    rw [List.foldlM_cons] at h
    obtain ⟨mid, hb, h⟩ := bind_eq_ok_iff.mp h
    obtain ⟨parts, hparts, hmid⟩ := appendBone_eq_ok hb
    obtain ⟨parts', hparts', hout⟩ := ih h
    refine ⟨parts ++ parts', ?_, ?_⟩
    · rw [List.flatMap_cons]
      exact List.rel_append hparts hparts'
    · rw [hout, hmid, List.flatten_append, List.append_assoc]

/-! ### The whole stream -/

theorem mem_bones {t : Timeline} {b : Bone} :
    b ∈ t.bones ↔ ∃ k ∈ t.keyframes, (k.pose.bone b).isRest = false := by
  simp [Timeline.bones, Bone.mem_all]

theorem Bone.pairwise_index_all : Bone.all.Pairwise (·.index < ·.index) := by decide

/-- The bones with records stand in the order of the bones. -/
theorem pairwise_bones (t : Timeline) : t.bones.Pairwise (·.index < ·.index) :=
  Bone.pairwise_index_all.filter _

/-- All that writing a timeline did, if it succeeded. -/
structure Encodes (config : Config) (t : Timeline) (e : EncodedMotion) : Prop where
  config_ok : config.check = .ok ()
  frames : t.frames config.frameRate = .ok e.frames
  bones : e.bones = t.bones
  recordCount : e.recordCount = e.bones.length * e.frames.length
  within : e.recordCount ≤ config.limits.outputRecords
  recordCount_lt : e.recordCount < UInt32.size
  stream : ∃ modelName parts, nameField .model Layout.modelNameSize config.modelName = .ok modelName ∧
    AreRecords parts (t.bones.flatMap (t.boneRecords e.frames)) ∧
    e.bytes.data.toList = Layout.padded Layout.signatureSize Layout.signature ++ modelName
      ++ Layout.wordBytes (.ofNat e.recordCount) ++ parts.flatten
      ++ (List.replicate Layout.sectionCount (Layout.wordBytes 0)).flatten

theorem encode_eq_ok {config : Config} {t : Timeline} {e : EncodedMotion}
    (h : t.encode config = .ok e) : Encodes config t e := by
  unfold Timeline.encode at h
  obtain ⟨⟨⟩, hconfig, h⟩ := bind_eq_ok_iff.mp h
  obtain ⟨frames, hframes, h⟩ := bind_eq_ok_iff.mp h
  simp only at h
  split at h
  · cases h
  next hwithin =>
    split at h
    · cases h
    next hcount =>
      obtain ⟨modelName, hmodel, h⟩ := bind_eq_ok_iff.mp h
      obtain ⟨body, hbody, h⟩ := bind_eq_ok_iff.mp h
      obtain rfl := Except.ok.inj h
      obtain ⟨parts, hparts, hbytes⟩ := foldlM_appendBone hbody
      refine ⟨hconfig, hframes, rfl, rfl, Nat.le_of_not_lt hwithin, Nat.lt_of_not_le hcount, modelName, parts,
        hmodel, hparts, ?_⟩
      simp only [toList_appendBytes, hbytes]
      simp

theorem exists_foldlM_appendBone (t : Timeline) (frames : List Nat) {bones : List Bone}
    (h : ∀ b ∈ bones, ∃ name, nameField .bone Layout.boneNameSize b.playerName = .ok name) (out : ByteArray) :
    ∃ out', bones.foldlM (appendBone t frames) out = .ok out' := by
  induction bones generalizing out with
  | nil => exact ⟨out, rfl⟩
  | cons b bones ih =>
    obtain ⟨name, hname⟩ := h b List.mem_cons_self
    obtain ⟨out', hout'⟩ := ih (fun b hb => h b (List.mem_cons_of_mem _ hb)) _
    exact ⟨out', by
      rw [List.foldlM_cons, bind_eq_ok_iff]
      exact ⟨_, bind_eq_ok_iff.2 ⟨name, hname, rfl⟩, hout'⟩⟩

/-- A timeline whose frames, names and number of records fit is written. -/
theorem exists_encode {config : Config} {t : Timeline} {frames : List Nat} {modelName : List UInt8}
    (hcheck : config.check = .ok ()) (hframes : t.frames config.frameRate = .ok frames)
    (hwithin : t.bones.length * frames.length ≤ config.limits.outputRecords)
    (hlt : t.bones.length * frames.length < UInt32.size)
    (hmodel : nameField .model Layout.modelNameSize config.modelName = .ok modelName)
    (hbones : ∀ b ∈ t.bones, ∃ name, nameField .bone Layout.boneNameSize b.playerName = .ok name) :
    ∃ e, t.encode config = .ok e := by
  obtain ⟨body, hbody⟩ := exists_foldlM_appendBone t frames hbones
    (appendBytes .empty (Layout.padded Layout.signatureSize Layout.signature ++ modelName
      ++ Layout.wordBytes (.ofNat (t.bones.length * frames.length))))
  unfold Timeline.encode
  simp only [hcheck, hframes, hmodel, hbody, if_neg (Nat.not_lt.2 hwithin), if_neg (Nat.not_le.2 hlt), bind,
    Except.bind]
  exact ⟨_, rfl⟩

/-- A stream with these records and empty sections is read as the motion of the records. -/
theorem reads_takeMotion {modelName : List UInt8} {parts : List (List UInt8)} {records : List BoneRecord}
    {count : UInt32} (hm : modelName.length = Layout.modelNameSize) (hcount : count.toNat = records.length)
    (hparts : AreRecords parts records) :
    Reads takeMotion (Layout.padded Layout.signatureSize Layout.signature ++ (modelName
        ++ (Layout.wordBytes count ++ (parts.flatten ++ (Layout.wordBytes 0 ++ (Layout.wordBytes 0
        ++ (Layout.wordBytes 0 ++ (Layout.wordBytes 0 ++ Layout.wordBytes 0))))))))
      { modelName := fieldName modelName, records } := by
  have hrecords : Reads (takeRecords count.toNat []) parts.flatten records := by
    rw [hcount]
    exact reads_takeRecords (hparts.imp fun _ _ h => h.1) []
  refine (reads_takeBytes (by decide)).bind ?_
  rw [if_pos (by decide)]
  refine (reads_takeBytes hm).bind ?_
  refine (reads_takeWord _ _).bind ?_
  refine hrecords.bind ?_
  refine (reads_emptySkips _ _ _).bind ?_
  refine (reads_emptySkips _ _ _).bind ?_
  refine (reads_emptySkips _ _ _).bind ?_
  refine (reads_emptySkips _ _ _).bind ?_
  exact (reads_emptySection (Reads.pure ())).map
    fun iks => { modelName := fieldName modelName, records, iks : Motion }

theorem length_boneRecords {t : Timeline} {frames : List Nat} (h : frames.length = t.keyframes.length) (b : Bone) :
    (t.boneRecords frames b).length = frames.length := by
  simp [Timeline.boneRecords, h]

theorem length_flatMap_boneRecords {t : Timeline} {frames : List Nat} (h : frames.length = t.keyframes.length)
    (bones : List Bone) : (bones.flatMap (t.boneRecords frames)).length = bones.length * frames.length := by
  induction bones with
  | nil => simp
  | cons b bones ih =>
    rw [List.flatMap_cons, List.length_append, ih, length_boneRecords h, List.length_cons, Nat.succ_mul,
      Nat.add_comm]

namespace Encodes

variable {config : Config} {t : Timeline} {e : EncodedMotion} (h : Encodes config t e)

include h

theorem length_frames : e.frames.length = t.keyframes.length := Timeline.length_frames h.frames

theorem length_records : (t.bones.flatMap (t.boneRecords e.frames)).length = e.recordCount := by
  rw [length_flatMap_boneRecords h.length_frames, h.recordCount, h.bones]

/-- The stream has the size that its records need. -/
theorem size_bytes : e.bytes.size = 54 + 111 * e.recordCount + 20 := by
  obtain ⟨modelName, parts, hmodel, hparts, hstream⟩ := h.stream
  obtain ⟨code, -, hfits, rfl⟩ := nameField_eq_ok_iff.1 hmodel
  have hsize : e.bytes.size = e.bytes.data.toList.length := rfl
  rw [hsize, hstream]
  simp only [List.length_append, hparts.length_flatten, h.length_records, length_padded hfits,
    Layout.length_wordBytes, length_padded (show Layout.signature.length ≤ Layout.signatureSize by decide)]
  simp only [Layout.signatureSize, Layout.modelNameSize, Layout.sectionCount, List.replicate,
    List.flatten_cons, List.flatten_nil, List.length_append, Layout.length_wordBytes, List.length_nil]

/-- The stream is read as its records. -/
theorem decode_bytes :
    ∃ code, ShiftJis.encode? config.modelName = some code ∧
      Motion.decode e.bytes = .ok {
        modelName := ShiftJis.decode (code.takeWhile (· ≠ 0))
        records := e.bones.flatMap (t.boneRecords e.frames) } := by
  obtain ⟨modelName, parts, hmodel, hparts, hstream⟩ := h.stream
  obtain ⟨code, hcode, hfits, rfl⟩ := nameField_eq_ok_iff.1 hmodel
  refine ⟨code, hcode, ?_⟩
  rw [← fieldName_padded Layout.modelNameSize code, h.bones]
  apply decode_of_reads
  rw [hstream]
  have hcount : (UInt32.ofNat e.recordCount).toNat = (t.bones.flatMap (t.boneRecords e.frames)).length := by
    rw [h.length_records, UInt32.toNat_ofNat_of_lt' h.recordCount_lt]
  simpa [Layout.sectionCount, List.replicate] using reads_takeMotion (length_padded hfits) hcount hparts

end Encodes

/-- **Reading undoes writing.** A timeline that was written, with any times and any postures, fills a
stream of the size that its records need. Decoding the stream gives the records of the posed
bones, bone by bone in order and for each bone keyframe by keyframe, the model name up to its
first zero, and no records of other kinds. -/
theorem decode_encode {config : Config} {t : Timeline} {e : EncodedMotion} (h : t.encode config = .ok e) :
    e.bytes.size = 54 + 111 * e.recordCount + 20 ∧
    e.recordCount = e.bones.length * e.frames.length ∧
    e.frames.length = t.keyframes.length ∧ (∀ frame ∈ e.frames, frame < UInt32.size) ∧
    e.bones.Pairwise (·.index < ·.index) ∧
    (∀ b, b ∈ e.bones ↔ ∃ k ∈ t.keyframes, (k.pose.bone b).isRest = false) ∧
    ∃ code, ShiftJis.encode? config.modelName = some code ∧
      Motion.decode e.bytes = .ok {
        modelName := ShiftJis.decode (code.takeWhile (· ≠ 0))
        records := e.bones.flatMap fun b =>
          (t.keyframes.zip e.frames).map fun (k, frame) => (k.pose.bone b).record b frame
        morphs := 0, cameras := 0, lights := 0, selfShadows := 0, iks := 0 } := by
  have he := encode_eq_ok h
  refine ⟨he.size_bytes, he.recordCount, he.length_frames, Timeline.frames_lt he.frames, ?_, ?_, he.decode_bytes⟩
  · rw [he.bones]
    exact pairwise_bones t
  · rw [he.bones]
    exact fun b => mem_bones

/-- Two keyframes so near to each other that they fall on one frame; the second raises the centre. -/
def raising : Timeline where
  keyframes :=
    [⟨0, "raise", .rest "low"⟩,
     ⟨0.01, "raise", (Posture.rest "high").setBone .center (Transform.rest.set .translateY 1.5)⟩]

theorem encode_raising :
    ∃ e, raising.encode {} = .ok e ∧ e.frames = [0, 1] ∧ e.bones = [.center] := by
  have hcheck : ({} : Config).check = .ok () := by decide +kernel
  have hframes : raising.frames defaultFrameRate = .ok [0, 1] := by decide +kernel
  have hbones : raising.bones = [.center] := by decide +kernel
  have hmodel : nameField .model Layout.modelNameSize "" = .ok (Layout.padded Layout.modelNameSize []) :=
    nameField_eq_ok_iff.2 ⟨[], rfl, Nat.zero_le _, rfl⟩
  have hnames : ∀ b ∈ raising.bones, ∃ name, nameField .bone Layout.boneNameSize b.playerName = .ok name := by
    rw [hbones]
    intro b hb
    obtain rfl := List.mem_singleton.1 hb
    exact ⟨_, nameField_eq_ok_iff.2 ⟨_, ShiftJis.encode?_center, by decide, rfl⟩⟩
  obtain ⟨e, he⟩ :=
    exists_encode hcheck hframes (by rw [hbones]; decide) (by rw [hbones]; decide) hmodel hnames
  have hencodes := encode_eq_ok he
  exact ⟨e, he, Except.ok.inj (hencodes.frames.symm.trans hframes), hencodes.bones.trans hbones⟩

theorem decode_encode_raising :
    ∃ e, raising.encode {} = .ok e ∧ e.bytes.size = 296 ∧
      Motion.decode e.bytes = .ok {
        modelName := ""
        records :=
          [Transform.rest.record .center 0, (Transform.rest.set .translateY 1.5).record .center 1] } := by
  obtain ⟨e, he, hframes, hbones⟩ := encode_raising
  obtain ⟨hsize, hcount, -, -, -, -, code, hcode, hdecode⟩ := decode_encode he
  refine ⟨e, he, by rw [hsize, hcount, hframes, hbones]; rfl, ?_⟩
  obtain rfl : [] = code := by simpa [ShiftJis.encode?] using hcode
  rw [hdecode, hframes, hbones]
  rfl

end PoseLang

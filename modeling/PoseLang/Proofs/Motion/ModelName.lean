import PoseLang.Proofs.Motion.RoundTrip

/-!
# The model name of a stream

The name of the model stands in a field of 20 bytes, padded with zeros. It is read back up to the first zero, and
character by character as Shift_JIS has it. Four characters do not survive this: U+0000 ends the name, and the yen
sign, the overline and the minus sign come back as others. All other names that can be written come back, also those
that fill the field and leave no zero behind them.

What is proved:

* which names are read back as they were (`readBackName_eq_iff`);
* what name a stream has, and so which names survive in it (`modelName_survives_iff`).
-/

namespace PoseLang

/-- A name as it is read back: up to its first U+0000, each character as its code is read. -/
def readBackName (name : String) : String :=
  String.ofList ((name.toList.takeWhile (· ≠ '\x00')).map ShiftJis.readBack)

/-- A name is read back as it was if it has no character that ends it and none that is read back as another. -/
theorem readBackName_eq_iff {name : String} :
    readBackName name = name ↔ ∀ c ∈ name.toList, c ≠ '\x00' ∧ ShiftJis.readBack c = c := by
  constructor
  · intro h
    have hlist : (name.toList.takeWhile (· ≠ '\x00')).map ShiftJis.readBack = name.toList := by
      conv_rhs => rw [← h, readBackName, String.toList_ofList]
    -- nothing is cut off, since the characters before the first U+0000 are as many as all
    have hwhole : name.toList.takeWhile (· ≠ '\x00') = name.toList := by
      refine (List.takeWhile_prefix _).eq_of_length ?_
      rw [← List.length_map ShiftJis.readBack, hlist]
    rw [hwhole] at hlist
    intro c hc
    have hzero := List.takeWhile_eq_self_iff.mp hwhole c hc
    exact ⟨of_decide_eq_true hzero, List.map_inj_left.mp (hlist.trans (List.map_id _).symm) c hc⟩
  · intro h
    have hwhole : name.toList.takeWhile (· ≠ '\x00') = name.toList := by
      rw [List.takeWhile_eq_self_iff]
      exact fun c hc => decide_eq_true (h c hc).1
    have hread : name.toList.map ShiftJis.readBack = name.toList.map id :=
      List.map_congr_left fun c hc => (h c hc).2
    rw [readBackName, hwhole, hread, List.map_id, String.ofList_toList]

/-- **Which model names survive.** The stream of a timeline that was written can be read, and the name in it is the
one that was asked for, up to its first U+0000 and with three characters replaced. So it is the name itself if and only
if that name has none of U+0000, U+00A5, U+203E and U+2212, however many bytes of the field it takes. -/
theorem modelName_survives_iff {config : Config} {t : Timeline} {e : EncodedMotion} (h : t.encode config = .ok e) :
    ∃ m, Motion.decode e.bytes = .ok m ∧ m.modelName = readBackName config.modelName ∧
      (m.modelName = config.modelName ↔
        ∀ c ∈ ['\u0000', '\u00a5', '\u203e', '\u2212'], c ∉ config.modelName.toList) := by
  obtain ⟨code, hcode, hdecode⟩ := (encode_eq_ok h).decode_bytes
  have hname : ShiftJis.decode (code.takeWhile (· ≠ 0)) = readBackName config.modelName :=
    ShiftJis.decode_takeWhile_of_encode? hcode
  refine ⟨_, hdecode, hname, ?_⟩
  simp only [hname, readBackName_eq_iff, ShiftJis.readBack_eq_self_iff]
  constructor
  · intro hall c hc hmem
    obtain ⟨hzero, hread⟩ := hall c hmem
    rcases List.mem_cons.mp hc with rfl | hc
    · exact hzero rfl
    · exact hread hc
  · intro hnone c hmem
    refine ⟨?_, fun hc => hnone c (List.mem_cons_of_mem _ hc) hmem⟩
    rintro rfl
    exact hnone _ List.mem_cons_self hmem

/-- One keyframe that poses no bone. -/
def still : Timeline where
  keyframes := [⟨0, "still", .rest "still"⟩]

theorem exists_encode_still {name : String} {code : List UInt8} (hcode : ShiftJis.encode? name = some code)
    (hfits : code.length ≤ Layout.modelNameSize) : ∃ e, still.encode { modelName := name } = .ok e := by
  have hbones : still.bones = [] := by decide +kernel
  have hframes : still.frames defaultFrameRate = .ok [0] := by decide +kernel
  have hcheck : ({ modelName := name } : Config).check = .ok () := by
    show ({} : Config).check = .ok ()
    decide +kernel
  refine exists_encode hcheck hframes ?_ ?_ (nameField_eq_ok_iff.2 ⟨code, hcode, hfits, rfl⟩) ?_
  · rw [hbones]
    exact Nat.zero_le _
  · rw [hbones]
    decide
  · rw [hbones]
    exact nofun

/-- A name of twenty bytes, two of them for half-width characters. -/
def fullName : String := "ﾐｸ, twenty bytes now"

/-- A name that fills the field survives, one with a yen sign does not. -/
theorem modelName_still :
    (∃ e m, still.encode { modelName := fullName } = .ok e ∧ Motion.decode e.bytes = .ok m ∧
      m.modelName = fullName) ∧
    ∃ e m, still.encode { modelName := "¥20" } = .ok e ∧ Motion.decode e.bytes = .ok m ∧ m.modelName = "\\20" := by
  constructor
  · have hcode : ShiftJis.encode? fullName = some ([0xD0, 0xB8] ++ ", twenty bytes now".toUTF8.toList) := by
      decide +kernel
    have hnone : (['\u0000', '\u00a5', '\u203e', '\u2212'].all fun c => !fullName.toList.contains c) = true := by
      decide +kernel
    obtain ⟨e, he⟩ := exists_encode_still hcode (by decide +kernel)
    obtain ⟨m, hm, -, hsurvives⟩ := modelName_survives_iff he
    refine ⟨e, m, he, hm, hsurvives.mpr fun c hc => ?_⟩
    simpa using List.all_eq_true.mp hnone c hc
  · have hcode : ShiftJis.encode? "¥20" = some [0x5C, 0x32, 0x30] := by decide +kernel
    obtain ⟨e, he⟩ := exists_encode_still hcode (by decide)
    obtain ⟨m, hm, hname, -⟩ := modelName_survives_iff he
    exact ⟨e, m, he, hm, hname.trans (by decide +kernel)⟩

end PoseLang

import PoseLang.Compile
import PoseLang.Proofs.Motion.RoundTrip
import PoseLang.Proofs.Timeline

/-!
# A motion says what its text says

The compiler takes a text through six stages: tokens, a document, checked statements, postures, a
timeline, a stream of bytes. Here the two ends are put together. What a document plays and what its
poses say is read off the document alone (`Plays`, `Pose.value`); what a stream says is what decoding it
gives. The theorem is that they are the same (`decode_compile`): each bone that is ever posed has one
record for each keyframe, with the values of the pose at that keyframe, and no other bone has any.

On the way it is proved that a stream's records of one bone are all and only those that were written
for it (`filter_boneRecords`): no two bones share a name in the player.
-/

namespace PoseLang

/-! ### The stages -/

/-- A text compiles if every stage takes what the stage before gives. -/
theorem compile_eq_ok_iff {config : Config} {source : String} {out : Compiled} :
    compile config source = .ok out ↔
      ∃ D C t e, config.check = .ok () ∧ parse config.limits source = .ok D ∧ D.check = .ok C ∧
        C.timeline config.limits = .ok t ∧ t.encode config = .ok e ∧
        ⟨e.bytes, C.warnings, e.frames.length, e.recordCount, t.duration⟩ = out := by
  constructor
  · intro h
    obtain ⟨⟨⟩, hconfig, h⟩ := bind_eq_ok_iff.mp h
    obtain ⟨D, hD, h⟩ := bind_eq_ok_iff.mp h
    obtain ⟨C, hC, h⟩ := bind_eq_ok_iff.mp h
    obtain ⟨t, ht, h⟩ := bind_eq_ok_iff.mp h
    obtain ⟨e, he, h⟩ := bind_eq_ok_iff.mp h
    exact ⟨D, C, t, e, hconfig, hD, hC, ht, he, Except.ok.inj h⟩
  · rintro ⟨D, C, t, e, hconfig, hD, hC, ht, he, rfl⟩
    simp only [compile, hconfig, hD, hC, ht, he, bind, Except.bind]
    rfl

/-! ### The records of one bone -/

theorem nodup_playerNames : (Bone.all.map Bone.playerName).Nodup := by decide +kernel

theorem playerName_inj {b c : Bone} (h : b.playerName = c.playerName) : b = c :=
  List.inj_on_of_nodup_map nodup_playerNames b.mem_all c.mem_all h

theorem boneName_of_mem_boneRecords {t : Timeline} {frames : List Nat} {b : Bone} {r : BoneRecord}
    (h : r ∈ t.boneRecords frames b) : r.boneName = b.playerName := by
  obtain ⟨⟨k, frame⟩, -, rfl⟩ := List.mem_map.mp h
  rfl

/-- Among the records of some bones, those with a bone's name are its own. -/
theorem filter_boneRecords {t : Timeline} {frames : List Nat} {bones : List Bone} (hbones : bones.Nodup) (b : Bone) :
    (bones.flatMap (t.boneRecords frames)).filter (·.boneName = b.playerName) =
      if b ∈ bones then t.boneRecords frames b else [] := by
  induction bones with
  | nil => rfl
  | cons c bones ih =>
    obtain ⟨hc, hbones⟩ := List.nodup_cons.mp hbones
    rw [List.flatMap_cons, List.filter_append, ih hbones]
    by_cases hbc : b = c
    · subst hbc
      have hall : (t.boneRecords frames b).filter (·.boneName = b.playerName) = t.boneRecords frames b :=
        List.filter_eq_self.mpr fun r hr => decide_eq_true (boneName_of_mem_boneRecords hr)
      rw [hall, if_neg hc, if_pos List.mem_cons_self, List.append_nil]
    · have hnone : (t.boneRecords frames c).filter (·.boneName = b.playerName) = [] := by
        refine List.filter_eq_nil_iff.mpr fun r hr hname => hbc ?_
        exact playerName_inj ((of_decide_eq_true hname).symm.trans (boneName_of_mem_boneRecords hr))
      rw [hnone, List.nil_append]
      simp [hbc]

/-! ### What is written of a pose -/

/-- The record of a bone in a pose at a frame: its shift and its rotation in single precision, and steady
motion from one keyframe to the next. -/
def Pose.record (p : Pose) (b : Bone) (frame : Nat) : BoneRecord :=
  let rotation := Euler.quaternion ⟨p.value b .pitch, p.value b .yaw, p.value b .roll⟩
  { boneName := b.playerName
    frame := .ofNat frame
    shift := ⟨.ofFloat (p.value b .translateX), .ofFloat (p.value b .translateY), .ofFloat (p.value b .translateZ)⟩
    rotation := ⟨.ofFloat rotation.x, .ofFloat rotation.y, .ofFloat rotation.z, .ofFloat rotation.w⟩
    interpolation := Layout.linearInterpolation }

/-- Some moment poses the bone: one of its axes is not zero there. -/
def Moves (ms : List Moment) (b : Bone) : Prop := ∃ m ∈ ms, ∃ x, (m.pose.value b x == 0) = false

instance (ms : List Moment) (b : Bone) : Decidable (Moves ms b) :=
  decidable_of_iff (∃ m ∈ ms, ∃ x ∈ Axis.all, (m.pose.value b x == 0) = false)
    (by simp only [Moves, Axis.mem_all, true_and])

theorem record_eq {q : Posture} {p : Pose} (h : q.Shows p) (b : Bone) (frame : Nat) :
    (q.bone b).record b frame = p.record b frame := by
  simp only [Transform.record, Transform.shift, Transform.rotation, Pose.record, h b]

section Shown

variable {t : Timeline} {ms : List Moment} (h : List.Forall₂ (fun m k => k.Shows m) ms t.keyframes)

include h

theorem map_time_eq : ms.map (·.time) = t.keyframes.map (·.time) :=
  map_eq_map_of_forall₂ (h.imp fun _ _ hk => hk.1.symm)

/-- The records of a bone have the values of the poses. -/
theorem boneRecords_eq (frames : List Nat) (b : Bone) :
    t.boneRecords frames b = (ms.zip frames).map fun (m, frame) => m.pose.record b frame := by
  unfold Timeline.boneRecords
  generalize t.keyframes = ks at h
  induction h generalizing frames with
  | nil => rfl
  | cons hk _ ih =>
    cases frames with
    | nil => rfl
    | cons frame frames =>
      simp only [List.zip_cons_cons, List.map_cons, ih, record_eq hk.2]

/-- The bones with records are those that some moment poses. -/
theorem mem_bones_iff_moves (b : Bone) : b ∈ t.bones ↔ Moves ms b := by
  have hposed {k : PlayedKeyframe} {m : Moment} (hk : k.Shows m) :
      (k.pose.bone b).isRest = false ↔ ∃ x, (m.pose.value b x == 0) = false := by
    rw [← Bool.not_eq_true, Transform.isRest_iff]
    simp only [hk.2 b, not_forall, Bool.not_eq_true]
  rw [mem_bones]
  unfold Moves
  generalize t.keyframes = ks at h
  induction h with
  | nil => simp
  | cons hk _ ih => simp only [List.mem_cons, exists_eq_or_imp, ih, hposed hk]

theorem bones_eq : t.bones = Bone.all.filter fun b => Moves ms b := by
  unfold Timeline.bones
  refine List.filter_congr fun b _ => ?_
  rw [Bool.eq_iff_iff, decide_eq_true_iff, ← mem_bones_iff_moves h, mem_bones]
  simp

/-- In a motion with the records of the timeline, the records of a bone are those of the moments if some
moment poses it, and otherwise there are none. -/
theorem recordsOf_eq {motion : Motion} {frames : List Nat}
    (hrecords : motion.records = t.bones.flatMap (t.boneRecords frames)) (b : Bone) :
    motion.recordsOf b =
      if Moves ms b then (ms.zip frames).map fun (m, frame) => m.pose.record b frame else [] := by
  have hnodup : t.bones.Nodup := by
    refine (pairwise_bones t).imp ?_
    rintro b _ hlt rfl
    exact Nat.lt_irrefl b.index hlt
  rw [Motion.recordsOf, hrecords, filter_boneRecords hnodup, boneRecords_eq h]
  simp only [mem_bones_iff_moves h]

end Shown

theorem not_moves_iff {ms : List Moment} {b : Bone} :
    ¬ Moves ms b ↔ ∀ m ∈ ms, ∀ x, (m.pose.value b x == 0) = true := by
  simp [Moves]

/-! ### A text that compiles -/

/-- A text whose timeline is `raising`. Its animation has the keyframes out of order. -/
def raisingSource : String :=
  "@pose low \x7b \x7d @pose high \x7b center move up 1.5; \x7d " ++
  "@animation raise \x7b 0.01: high; 0: low; \x7d main \x7b raise; \x7d"

theorem timeline_raisingSource :
    ∃ D C, parse {} raisingSource = .ok D ∧ D.check = .ok C ∧ C.timeline {} = .ok raising := by
  let low : Keyframe := ⟨0, "low", ⟨80, 81, 1, 81⟩⟩
  let high : Keyframe := ⟨0.01, "high", ⟨68, 72, 1, 69⟩⟩
  let raise : Animation := ⟨"raise", [high, low], ⟨49, 59, 1, 50⟩⟩
  let poses := [("low", Posture.rest "low"),
    ("high", (Posture.rest "high").setBone .center (Transform.rest.set .translateY 1.5))]
  have hstages : (do
      let D ← parse {} raisingSource
      let C ← D.check
      Except.ok (C.postures, C.animations, C.main)) =
        .ok (poses, [("raise", raise)], [⟨"raise", ⟨97, 102, 1, 98⟩⟩]) := by decide +kernel
  obtain ⟨D, hD, h⟩ := bind_eq_ok_iff.mp hstages
  obtain ⟨C, hC, h⟩ := bind_eq_ok_iff.mp h
  simp only [Except.ok.injEq, Prod.mk.injEq] at h
  obtain ⟨hposes, hanimations, hmain⟩ := h
  -- Sorting is by well-founded recursion, which does not evaluate; its equations do.
  have hsort : sortKeyframes [high, low] = [low, high] := by
    have hkey : ¬ orderKey high.time ≤ orderKey low.time := by decide +kernel
    simp [sortKeyframes, List.mergeSort, hkey]
  refine ⟨D, C, hD, hC, ?_⟩
  have htrack : raise.track poses = .ok ⟨"raise", [⟨0, .rest "low"⟩,
      ⟨0.01, (Posture.rest "high").setBone .center (Transform.rest.set .translateY 1.5)⟩]⟩ := by
    rw [Animation.track, hsort]
    decide +kernel
  rw [Checked.timeline, hposes, hanimations, hmain, assemble, List.mapM_cons, List.mapM_nil]
  simp only [htrack]
  decide +kernel

theorem compile_raisingSource :
    ∃ out, compile {} raisingSource = .ok out ∧ out.frameCount = 2 ∧ out.recordCount = 2 := by
  obtain ⟨D, C, hD, hC, ht⟩ := timeline_raisingSource
  obtain ⟨e, he, hframes, hbones⟩ := encode_raising
  have hconfig : ({} : Config).check = .ok () := by decide +kernel
  refine ⟨_, compile_eq_ok_iff.mpr ⟨D, C, raising, e, hconfig, hD, hC, ht, he, rfl⟩, ?_, ?_⟩
  · rw [hframes]
    rfl
  · rw [(encode_eq_ok he).recordCount, hbones, hframes]
    rfl

/-! ### Both ends -/

/-- **A motion says what its text says.** Let a text compile. Its document plays one sequence of moments,
and they are planned on ascending frames. The stream is a motion in which a bone that some moment poses
has exactly one record for each moment, in order, on the frame of the moment and with what the pose
says of the bone; a bone that no moment poses has no record at all. -/
theorem decode_compile {config : Config} {source : String} {out : Compiled}
    (h : compile config source = .ok out) :
    ∃ D ms frames motion,
      parse config.limits source = .ok D ∧
      Plays D 0 D.main ms ∧ (∀ ms', Plays D 0 D.main ms' → ms' = ms) ∧
      planFrom config.frameRate [] (ms.map (·.time)) = .ok frames ∧
      frames.length = ms.length ∧ frames.Pairwise (· < ·) ∧ (∀ frame ∈ frames, frame < UInt32.size) ∧
      Motion.decode out.bytes = .ok motion ∧
      out.frameCount = ms.length ∧
      (∀ b, Xor
        ((∀ m ∈ ms, ∀ x, (m.pose.value b x == 0) = true) ∧ motion.recordsOf b = [])
        (Moves ms b ∧ motion.recordsOf b = (ms.zip frames).map fun (m, frame) => m.pose.record b frame)) ∧
      out.recordCount = ms.length * (Bone.all.filter fun b => Moves ms b).length := by
  obtain ⟨D, C, t, e, -, hD, hC, ht, he, rfl⟩ := compile_eq_ok_iff.mp h
  obtain ⟨ms, hplays, hshows⟩ := plays_of_timeline hD hC ht
  obtain ⟨ts, -, hdenotes⟩ := denotes_of_parse hD
  have hencodes := encode_eq_ok he
  obtain ⟨code, -, hdecode⟩ := hencodes.decode_bytes
  have hlength : e.frames.length = ms.length := hencodes.length_frames.trans hshows.length_eq.symm
  refine ⟨D, ms, e.frames, _, hD, hplays, fun ms' h' => h'.unique hdenotes.wellFormed hplays, ?_, hlength,
    Timeline.pairwise_frames hencodes.frames, Timeline.frames_lt hencodes.frames, hdecode, hlength,
    fun b => ?_, ?_⟩
  · rw [map_time_eq hshows]
    exact Timeline.planFrom_of_frames hencodes.frames
  · rw [recordsOf_eq hshows (by rw [hencodes.bones]) b, ← not_moves_iff]
    by_cases hb : Moves ms b
    · rw [if_pos hb]
      exact .inr ⟨⟨hb, rfl⟩, fun hrest => hrest.1 hb⟩
    · rw [if_neg hb]
      exact .inl ⟨⟨hb, rfl⟩, fun hposed => hb hposed.1⟩
  · rw [← bones_eq hshows, ← hlength, Nat.mul_comm, ← hencodes.bones]
    exact hencodes.recordCount

/-- The text poses one bone, which has a record at each of the two keyframes; no other bone has any. -/
theorem decode_compile_raisingSource :
    ∃ out motion b, compile {} raisingSource = .ok out ∧ Motion.decode out.bytes = .ok motion ∧
      (motion.recordsOf b).length = 2 ∧ ∀ c ≠ b, motion.recordsOf c = [] := by
  obtain ⟨out, hout, hframes, hrecords⟩ := compile_raisingSource
  obtain ⟨D, ms, frames, motion, -, -, -, -, hlength, -, -, hdecode, hcount, hbones, htotal⟩ := decode_compile hout
  have hone : (Bone.all.filter fun b => Moves ms b).length = 1 := by
    rw [hrecords, ← hcount, hframes] at htotal
    omega
  obtain ⟨b, hb⟩ := List.length_eq_one_iff.mp hone
  have hmoves (c : Bone) : Moves ms c ↔ c = b := by
    rw [← List.mem_singleton, ← hb, List.mem_filter, decide_eq_true_iff]
    exact (and_iff_right c.mem_all).symm
  refine ⟨out, motion, b, hout, hdecode, ?_, fun c hc => ?_⟩
  · rcases hbones b with ⟨⟨hrest, -⟩, -⟩ | ⟨⟨-, hposed⟩, -⟩
    · exact absurd ((hmoves b).mpr rfl) (not_moves_iff.mpr hrest)
    · rw [hposed, List.length_map, List.length_zip, hlength, Nat.min_self, ← hcount, hframes]
  · rcases hbones c with ⟨⟨-, hnone⟩, -⟩ | ⟨⟨hposed, -⟩, -⟩
    · exact hnone
    · exact absurd ((hmoves c).mp hposed) hc

end PoseLang

import PoseLang.Proofs.Number.Sum
import PoseLang.Proofs.Timeline

/-!
# Time along a timeline

A play sequence is laid out as one `Segment` after the other, each from where the one before it stops.
Within the track of an animation the times ascend strictly, but what stands on the timeline are sums with
the start of the segment, and sums are rounded.

What is proved:

* a timeline consists of the segments of its play sequence (`exists_laid_of_play`);
* time never runs backwards, whatever is played and however often (`time_ascends`);
* within one segment the times ascend strictly but for keyframes whose exact sums with the start are
  rounded to one time; these are no farther apart than that time divided by `2 ^ 52`, and the first
  segment has none (`time_lt_iff_not_merges`). There is a text with such keyframes
  (`time_eq_crowdedSource`).
-/

namespace PoseLang

/-! ### Segments -/

/-- A track that is played from a time on. -/
structure Segment where
  start : Float
  track : Track

namespace Segment

/-- The keyframes, at the times when they are played. -/
def keyframes (s : Segment) : List PlayedKeyframe := s.track.playedFrom s.start

/-- Where the next segment begins. -/
def stop (s : Segment) : Float := s.start + s.track.duration

end Segment

/-- From a time on, these entries play these segments. -/
inductive Laid (tracks : List Track) : Float → List PlayEntry → List Segment → Prop
  | nil {start : Float} : Laid tracks start [] []
  | cons {start : Float} {e : PlayEntry} {es : List PlayEntry} {track : Track} {segments : List Segment} :
      tracks.find? (·.name = e.animation) = some track →
      Laid tracks (Segment.stop ⟨start, track⟩) es segments →
      Laid tracks start (e :: es) (⟨start, track⟩ :: segments)

/-- Playing entries adds the keyframes of their segments to what was played before. -/
theorem exists_laid_of_play {limits : InputLimits} {tracks : List Track} {done : Array PlayedKeyframe}
    {start : Float} {es : List PlayEntry} {t : Timeline} (h : play limits tracks done start es = .ok t) :
    ∃ segments, Laid tracks start es segments ∧ t.keyframes = done.toList ++ segments.flatMap Segment.keyframes := by
  induction es generalizing done start with
  | nil =>
    cases h
    exact ⟨[], .nil, (List.append_nil _).symm⟩
  | cons e es ih =>
    obtain ⟨track, htrack, -, h⟩ := play_cons_eq_ok h
    obtain ⟨segments, hlaid, hkeyframes⟩ := ih h
    refine ⟨⟨start, track⟩ :: segments, .cons htrack hlaid, ?_⟩
    rw [hkeyframes, Array.toList_appendList, List.append_assoc, List.flatMap_cons]
    rfl

/-- The timeline of a document consists of the segments of its play sequence. -/
theorem exists_laid_of_timeline {limits : InputLimits} {D : Document} {C : Checked} {t : Timeline}
    (hC : D.check = .ok C) (ht : C.timeline limits = .ok t) :
    ∃ tracks segments, D.animations.mapM (fun (_, a) => a.track C.postures) = .ok tracks ∧
      Laid tracks.reverse 0 D.main segments ∧ t.keyframes = segments.flatMap Segment.keyframes := by
  obtain ⟨tracks, htracks, hplay⟩ := (timeline_eq_ok_iff hC).mp ht
  obtain ⟨segments, hlaid, hkeyframes⟩ := exists_laid_of_play hplay
  exact ⟨tracks, segments, htracks, hlaid, hkeyframes⟩

/-! ### One track -/

/-- The keyframes of a track stand at times that ascend. -/
structure Track.IsTimed (t : Track) : Prop where
  isTime : ∀ k ∈ t.keyframes, IsTime k.time
  ascending : t.keyframes.Pairwise (·.time < ·.time)

/-- An animation with finite times that have no sign has such a track. -/
theorem isTimed_of_track {poses : List (String × Posture)} {a : Animation} {t : Track}
    (hmagnitude : ∀ k ∈ a.keyframes, IsMagnitude k.time) (h : a.track poses = .ok t) : t.IsTimed := by
  obtain ⟨-, ks, hks, hkeyframes⟩ := inOrder_of_track (fun k hk => .of_isFinite (hmagnitude k hk).1) h
  have htimes : ks.map (·.time) = t.keyframes.map (·.time) :=
    map_eq_map_of_forall₂ (hkeyframes.imp fun _ _ hp => hp.1.symm)
  constructor
  · intro p hp
    have hmem : p.time ∈ ks.map (·.time) := htimes ▸ List.mem_map_of_mem hp
    obtain ⟨k, hk, htime⟩ := List.mem_map.mp hmem
    exact htime ▸ (hmagnitude k (hks.perm.mem_iff.mp hk)).isTime
  · have hascending : (ks.map (·.time)).Pairwise (· < ·) := List.pairwise_map.mpr hks.ascending
    rw [htimes] at hascending
    exact List.pairwise_map.mp hascending

namespace Track.IsTimed

variable {t : Track}

theorem isTime_duration (h : t.IsTimed) : IsTime t.duration := by
  unfold duration
  cases hlast : t.keyframes.getLast? with
  | none => exact isTime_zero
  | some last => exact h.isTime last (List.mem_of_getLast? hlast)

/-- No keyframe stands after the end of the track. -/
theorem le_duration (h : t.IsTimed) {k : TimedPose} (hk : k ∈ t.keyframes) : k.time ≤ t.duration := by
  obtain ⟨before, last, hkeyframes⟩ : ∃ before last, t.keyframes = before ++ [last] :=
    (List.eq_nil_or_concat' _).resolve_left (List.ne_nil_of_mem hk)
  have hduration : t.duration = last.time := by simp [duration, hkeyframes]
  have hlast := h.isTime last (by simp [hkeyframes])
  have htime := h.isTime k hk
  have hascending := h.ascending
  rw [hduration]
  rw [hkeyframes] at hk hascending
  rcases List.mem_append.mp hk with hbefore | hsame
  · exact htime.le_of_lt hlast ((List.pairwise_append.mp hascending).2.2 k hbefore last List.mem_cons_self)
  · rw [List.mem_singleton.mp hsame]
    exact hlast.le_refl

end Track.IsTimed

/-! ### One segment -/

/-- A segment starts at a time, and its track has times that ascend. -/
structure Segment.IsTimed (s : Segment) : Prop where
  start : IsTime s.start
  track : s.track.IsTimed

namespace Segment.IsTimed

variable {s : Segment}

theorem isTime_stop (h : s.IsTimed) : IsTime s.stop := h.start.add h.track.isTime_duration

theorem start_le_stop (h : s.IsTimed) : s.start ≤ s.stop := h.start.le_add_right h.track.isTime_duration

/-- The keyframes of a segment stand at times between its start and its stop. -/
theorem between (h : s.IsTimed) {k : PlayedKeyframe} (hk : k ∈ s.keyframes) :
    IsTime k.time ∧ s.start ≤ k.time ∧ k.time ≤ s.stop := by
  obtain ⟨p, hp, rfl⟩ := List.mem_map.mp hk
  have htime := h.track.isTime p hp
  exact ⟨h.start.add htime, h.start.le_add_right htime,
    h.start.add_le_add htime h.track.isTime_duration (h.track.le_duration hp)⟩

theorem pairwise_le (h : s.IsTimed) : s.keyframes.Pairwise (·.time ≤ ·.time) := by
  refine List.pairwise_map.mpr (h.track.ascending.imp_of_mem fun {k k'} hk hk' hlt => ?_)
  have htime := h.track.isTime k hk
  have htime' := h.track.isTime k' hk'
  exact h.start.add_le_add htime htime' (htime.le_of_lt htime' hlt)

end Segment.IsTimed

/-! ### A play sequence -/

namespace Laid

variable {tracks : List Track} (htracks : ∀ name track, tracks.find? (·.name = name) = some track → track.IsTimed)
variable {start : Float} (hstart : IsTime start) {es : List PlayEntry} {segments : List Segment}

include htracks hstart

/-- From a time on, all segments are timed, and none begins before it. -/
theorem isTimed (h : Laid tracks start es segments) : ∀ s ∈ segments, s.IsTimed ∧ start ≤ s.start := by
  induction h with
  | nil => simp
  | @cons start e es track segments htrack _ ih =>
    have hfirst : Segment.IsTimed ⟨start, track⟩ := ⟨hstart, htracks _ _ htrack⟩
    intro s hs
    rcases List.mem_cons.mp hs with rfl | hs
    · exact ⟨hfirst, hstart.le_refl⟩
    · obtain ⟨hs, hle⟩ := ih hfirst.isTime_stop s hs
      exact ⟨hs, hstart.le_trans hfirst.isTime_stop hs.start hfirst.start_le_stop hle⟩

/-- No segment begins before one that is played earlier has stopped. -/
theorem pairwise_stop_le (h : Laid tracks start es segments) : segments.Pairwise (·.stop ≤ ·.start) := by
  induction h with
  | nil => exact .nil
  | @cons start e es track segments htrack hrest ih =>
    have hstop : IsTime (Segment.stop ⟨start, track⟩) :=
      Segment.IsTimed.isTime_stop ⟨hstart, htracks _ _ htrack⟩
    exact List.pairwise_cons.mpr ⟨fun s hs => (hrest.isTimed htracks hstop s hs).2, ih hstop⟩

/-- The times of all segments ascend. -/
theorem pairwise_le (h : Laid tracks start es segments) :
    (segments.flatMap Segment.keyframes).Pairwise (·.time ≤ ·.time) := by
  have htimed := h.isTimed htracks hstart
  refine List.pairwise_flatMap.mpr ⟨fun s hs => (htimed s hs).1.pairwise_le, ?_⟩
  refine (h.pairwise_stop_le htracks hstart).imp_of_mem fun {s s'} hs hs' hle k hk k' hk' => ?_
  have hs := (htimed s hs).1
  have hs' := (htimed s' hs').1
  obtain ⟨hk, -, hk_le⟩ := hs.between hk
  obtain ⟨hk', hle_k', -⟩ := hs'.between hk'
  -- `k` is not after the stop of its segment, which is not after the start of the other
  exact hk.le_trans hs.isTime_stop hk' hk_le (hs.isTime_stop.le_trans hs'.start hk' hle hle_k')

end Laid

/-- The tracks of a document that was read are timed. -/
theorem isTimed_of_find? {limits : InputLimits} {source : String} {D : Document} {poses : List (String × Posture)}
    {tracks : List Track} (hD : parse limits source = .ok D)
    (h : D.animations.mapM (fun (_, a) => a.track poses) = .ok tracks) (name : String) (track : Track)
    (htrack : tracks.reverse.find? (·.name = name) = some track) : track.IsTimed := by
  obtain ⟨ts, -, hdenotes⟩ := denotes_of_parse hD
  obtain ⟨a, ha, hatrack⟩ := exists_animation_of_find? hdenotes.wellFormed.animationKey h htrack
  exact isTimed_of_track (fun k hk => isMagnitude_time hD ha hk) hatrack

/-! ### A text with keyframes too close to tell -/

/-- A text whose second animation has two keyframes so close that after one second they stand at one time. -/
def crowdedSource : String :=
  "@pose p \x7b \x7d @animation a \x7b 1: p; \x7d " ++
  "@animation b \x7b 0: p; 0.00000000000000001: p; \x7d main \x7b a; b; \x7d"

/-- The animations of the text. -/
def crowdedAnimations : List (String × Animation) :=
  [("a", ⟨"a", [⟨1.0, "p", ⟨27, 28, 1, 28⟩⟩], ⟨12, 22, 1, 13⟩⟩),
    ("b", ⟨"b", [⟨0, "p", ⟨50, 51, 1, 51⟩⟩, ⟨1e-17, "p", ⟨56, 75, 1, 57⟩⟩], ⟨35, 45, 1, 36⟩⟩)]

/-- The entries of its `main` block. -/
def crowdedMain : List PlayEntry := [⟨"a", ⟨89, 90, 1, 90⟩⟩, ⟨"b", ⟨92, 93, 1, 93⟩⟩]

/-- The tracks of its animations. -/
def crowdedTracks : List Track :=
  [⟨"a", [⟨1.0, .rest "p"⟩]⟩, ⟨"b", [⟨0, .rest "p"⟩, ⟨1e-17, .rest "p"⟩]⟩]

/-- The timeline of the text. -/
def crowded : Timeline :=
  ⟨[⟨1.0, "a", .rest "p"⟩, ⟨1.0, "b", .rest "p"⟩, ⟨1.0, "b", .rest "p"⟩]⟩

/-- The track of an animation that is in order already: nothing is sorted. -/
theorem track_of_pairwise {poses : List (String × Posture)} {a : Animation} {ps : List TimedPose}
    (hordered : a.keyframes.Pairwise fun k k' => orderKey k.time ≤ orderKey k'.time)
    (hrepeated : repeated? a.keyframes = none) (h : a.keyframes.mapM (Keyframe.resolve poses) = .ok ps) :
    a.track poses = .ok ⟨a.name, ps⟩ := by
  have hsort : sortKeyframes a.keyframes = a.keyframes := List.mergeSort_of_pairwise (hordered.imp decide_eq_true)
  have hsorted : repeated? (sortKeyframes a.keyframes) = none := by rw [hsort, hrepeated]
  rw [track_of_repeated?_eq_none hsorted, hsort, h]
  rfl

theorem mapM_crowdedAnimations :
    crowdedAnimations.mapM (fun (_, a) => a.track [("p", .rest "p")]) = .ok crowdedTracks := by
  refine mapM_eq_ok_iff.mpr (.cons ?_ (.cons ?_ .nil))
  · exact track_of_pairwise (by decide +kernel) rfl rfl
  · exact track_of_pairwise (by decide +kernel) (by decide +kernel) (by decide +kernel)

theorem timeline_crowdedSource :
    ∃ D C, parse {} crowdedSource = .ok D ∧ D.check = .ok C ∧ D.main = crowdedMain ∧
      D.animations.mapM (fun (_, a) => a.track C.postures) = .ok crowdedTracks ∧ C.timeline {} = .ok crowded := by
  have hstages : (do
      let D ← parse {} crowdedSource
      let C ← D.check
      Except.ok (C.postures, D.animations, D.main)) =
        .ok ([("p", Posture.rest "p")], crowdedAnimations, crowdedMain) := by decide +kernel
  obtain ⟨D, hD, h⟩ := bind_eq_ok_iff.mp hstages
  obtain ⟨C, hC, h⟩ := bind_eq_ok_iff.mp h
  simp only [Except.ok.injEq, Prod.mk.injEq] at h
  obtain ⟨hposes, hanimations, hmain⟩ := h
  have htracks : D.animations.mapM (fun (_, a) => a.track C.postures) = .ok crowdedTracks := by
    rw [hposes, hanimations]
    exact mapM_crowdedAnimations
  refine ⟨D, C, hD, hC, hmain, htracks, (timeline_eq_ok_iff hC).mpr ⟨_, htracks, ?_⟩⟩
  rw [hmain]
  decide +kernel

/-- **Time never runs backwards.** The times of a timeline are numbers, none of them is negative, and each is
at most those that come after it. -/
theorem time_ascends {limits limits' : InputLimits} {source : String} {D : Document} {C : Checked} {t : Timeline}
    (hD : parse limits source = .ok D) (hC : D.check = .ok C) (ht : C.timeline limits' = .ok t) :
    (∀ k ∈ t.keyframes, k.time.isNaN = false ∧ 0 ≤ k.time) ∧ t.keyframes.Pairwise (·.time ≤ ·.time) := by
  obtain ⟨tracks, segments, htracks, hlaid, hkeyframes⟩ := exists_laid_of_timeline hC ht
  have htimed := isTimed_of_find? hD htracks
  rw [hkeyframes]
  refine ⟨fun k hk => ?_, hlaid.pairwise_le htimed isTime_zero⟩
  obtain ⟨s, hs, hk⟩ := List.mem_flatMap.mp hk
  have htime := ((hlaid.isTimed htimed isTime_zero s hs).1.between hk).1
  exact ⟨htime.isNaN_eq_false, htime.zero_le⟩

theorem time_ascends_crowdedSource :
    ∃ D C, parse {} crowdedSource = .ok D ∧ D.check = .ok C ∧ C.timeline {} = .ok crowded ∧
      (∀ k ∈ crowded.keyframes, k.time.isNaN = false ∧ 0 ≤ k.time) ∧
      crowded.keyframes.Pairwise (·.time ≤ ·.time) := by
  obtain ⟨D, C, hD, hC, -, -, ht⟩ := timeline_crowdedSource
  exact ⟨D, C, hD, hC, ht, time_ascends hD hC ht⟩

/-- **When time stands still within an animation.** Of two keyframes of one entry, the later one has the later
time unless the exact sums with the start of the entry are rounded to one time. If so, the entry does not
begin at 0; and if that one time is finite, the keyframes are no farther apart than it divided by `2 ^ 52`. -/
theorem time_lt_iff_not_merges {limits limits' : InputLimits} {source : String} {D : Document} {C : Checked}
    {t : Timeline} (hD : parse limits source = .ok D) (hC : D.check = .ok C) (ht : C.timeline limits' = .ok t) :
    ∃ tracks segments, D.animations.mapM (fun (_, a) => a.track C.postures) = .ok tracks ∧
      Laid tracks.reverse 0 D.main segments ∧ t.keyframes = segments.flatMap Segment.keyframes ∧
      ∀ s ∈ segments, ∀ k₁ k₂, [k₁, k₂].Sublist s.track.keyframes →
        k₁.time < k₂.time ∧
        (s.start + k₁.time < s.start + k₂.time ↔ ¬ Merges s.start k₁.time k₂.time) ∧
        (Merges s.start k₁.time k₂.time →
          s.start + k₁.time = s.start + k₂.time ∧ s.start ≠ 0 ∧
          ((s.start + k₂.time).isFinite = true →
            bitsValue k₂.time.toBits.toNat - bitsValue k₁.time.toBits.toNat ≤
              bitsValue (s.start + k₂.time).toBits.toNat / 2 ^ 52)) := by
  obtain ⟨tracks, segments, htracks, hlaid, hkeyframes⟩ := exists_laid_of_timeline hC ht
  refine ⟨tracks, segments, htracks, hlaid, hkeyframes, fun s hs k₁ k₂ hsub => ?_⟩
  obtain ⟨hstart, htrack⟩ := (hlaid.isTimed (isTimed_of_find? hD htracks) isTime_zero s hs).1
  have hlt : k₁.time < k₂.time := List.pairwise_iff_forall_sublist.mp htrack.ascending hsub
  have h₁ := htrack.isTime k₁ (hsub.subset (by simp))
  have h₂ := htrack.isTime k₂ (hsub.subset (by simp))
  refine ⟨hlt, hstart.add_lt_add_iff h₁ h₂ (h₁.le_of_lt h₂ hlt), fun hmerges => ?_⟩
  have hsame := (hstart.merges_iff h₁ h₂).mp hmerges
  refine ⟨hsame, fun hzero => ?_, hstart.sub_le_of_merges h₂ hmerges⟩
  -- A sum with 0 is exact.
  rw [hzero, h₁.zero_add, h₂.zero_add] at hsame
  rw [h₁.lt_iff h₂, hsame] at hlt
  exact Nat.lt_irrefl _ hlt

/-- The keyframes of the second entry are rounded to one time. -/
theorem merges_crowdedSource :
    ∃ D C segments, parse {} crowdedSource = .ok D ∧ D.check = .ok C ∧ C.timeline {} = .ok crowded ∧
      Laid crowdedTracks.reverse 0 D.main segments ∧ crowded.keyframes = segments.flatMap Segment.keyframes ∧
      ∃ s ∈ segments, ∃ k₁ k₂, [k₁, k₂].Sublist s.track.keyframes ∧
        k₁.time < k₂.time ∧ Merges s.start k₁.time k₂.time ∧ s.start + k₁.time = s.start + k₂.time := by
  obtain ⟨D, C, hD, hC, hmain, htracks, ht⟩ := timeline_crowdedSource
  obtain ⟨tracks, segments, htracks', hlaid, hkeyframes, hpairs⟩ := time_lt_iff_not_merges hD hC ht
  obtain rfl : crowdedTracks = tracks := Except.ok.inj (htracks.symm.trans htracks')
  refine ⟨D, C, segments, hD, hC, ht, hlaid, hkeyframes, ?_⟩
  rw [hmain] at hlaid
  cases hlaid with
  | cons ha hrest =>
    cases hrest with
    | cons hb hnil =>
      cases ha
      cases hb
      obtain ⟨hlt, hiff, hmerges⟩ := hpairs _ (.tail _ (.head _)) _ _ (.refl _)
      have hmerged := not_not.mp (mt hiff.mpr (by decide +kernel))
      exact ⟨_, .tail _ (.head _), _, _, .refl _, hlt, hmerged, (hmerges hmerged).1⟩

/-- **Two keyframes of one entry may have one time.** The second entry has two keyframes, and both stand at one
second. -/
theorem time_eq_crowdedSource :
    ∃ D C t, parse {} crowdedSource = .ok D ∧ D.check = .ok C ∧ C.timeline {} = .ok t ∧
      D.main.map (·.animation) = ["a", "b"] ∧
      t.keyframes.map (fun k => (k.animation, k.time)) = [("a", 1.0), ("b", 1.0), ("b", 1.0)] := by
  obtain ⟨D, C, hD, hC, hmain, -, ht⟩ := timeline_crowdedSource
  refine ⟨D, C, crowded, hD, hC, ht, ?_, rfl⟩
  rw [hmain]
  rfl

end PoseLang

import PoseLang.Proofs.Document.Reader
import PoseLang.Proofs.Number.Order
import PoseLang.Proofs.Posture
import PoseLang.Proofs.Token.Lexer
import PoseLang.Timeline

/-!
# What a document plays

The entries of `main` are played one after the other, each with the keyframes of its animation in
ascending order of time. `Plays` says this of a document alone, without sorting or looking up: the
keyframes of an entry are any arrangement of the animation's keyframes whose times ascend, their poses
are those that the document has under the names, and each entry begins where the last keyframe of the
one before stands.

What is proved:

* the times of a document that was read are numbers (`isNumber_time`), so sorting puts the keyframes in
  ascending order, unless two have one time (`inOrder_of_track`);
* a timeline shows what the document plays, with the values that the poses say (`plays_of_timeline`);
* there is only one thing that a document plays (`Plays.unique`).
-/

namespace PoseLang

open Grammar

/-! ### What is played -/

/-- The keyframes of an animation, in ascending order of time. -/
structure Animation.InOrder (a : Animation) (ks : List Keyframe) : Prop where
  perm : ks.Perm a.keyframes
  ascending : ks.Pairwise (·.time < ·.time)

/-- The time of the last keyframe, or 0 if there is none. -/
def lastTime (ks : List Keyframe) : Float := (ks.getLast?.map (·.time)).getD 0

/-- A pose at a time from the very start. -/
@[ext]
structure Moment where
  time : Float
  pose : Pose

/-- From a time on, these entries play these moments. -/
inductive Plays (D : Document) : Float → List PlayEntry → List Moment → Prop
  | nil {start : Float} : Plays D start [] []
  | cons {start : Float} {e : PlayEntry} {es : List PlayEntry} {a : Animation} {ks : List Keyframe}
      {ms rest : List Moment} :
      (e.animation, a) ∈ D.animations → a.InOrder ks →
      List.Forall₂ (fun k m => m.time = start + k.time ∧ (k.pose, m.pose) ∈ D.poses) ks ms →
      Plays D (start + lastTime ks) es rest → Plays D start (e :: es) (ms ++ rest)

theorem eq_of_mem_keys {β : Type} {l : List (String × β)} (hl : (l.map Prod.fst).Nodup) {k : String} {v w : β}
    (hv : (k, v) ∈ l) (hw : (k, w) ∈ l) : v = w :=
  Option.some.inj ((lookup_of_mem hl hv).symm.trans (lookup_of_mem hl hw))

theorem Animation.InOrder.unique {a : Animation} {ks ks' : List Keyframe} (h : a.InOrder ks) (h' : a.InOrder ks') :
    ks = ks' :=
  (h.perm.trans h'.perm.symm).eq_of_pairwise
    (fun _ _ _ _ hab hba => absurd hba (float_lt_asymm hab)) h.ascending h'.ascending

/-- A document plays one thing. -/
theorem Plays.unique {D : Document} (hD : D.WellFormed) {start : Float} {es : List PlayEntry}
    {ms ms' : List Moment} (h : Plays D start es ms) (h' : Plays D start es ms') : ms = ms' := by
  induction h generalizing ms' with
  | nil =>
    cases h'
    rfl
  | @cons start e es a ks ms rest ha hks hms _ ih =>
    cases h' with
    | @cons _ _ _ a' ks' ms' rest' ha' hks' hms' hrest' =>
      obtain rfl := eq_of_mem_keys hD.animations_nodup ha ha'
      obtain rfl := hks.unique hks'
      have hsame : ms = ms' := by
        refine List.right_unique_forall₂' (fun k m m' hm hm' => ?_) hms hms'
        exact Moment.ext (hm.1.trans hm'.1.symm) (eq_of_mem_keys hD.poses_nodup hm.2 hm'.2)
      rw [hsame, ih hrest']

/-! ### Times -/

/-- The times of keyframes are numbers of the tokens. -/
theorem exists_token_time {ts : List Token} {D : Document} (h : Denotes ts D) {a : String × Animation}
    (ha : a ∈ D.animations) {k : Keyframe} (hk : k ∈ a.2.keyframes) : ∃ t ∈ ts, t.kind = .number k.time := by
  obtain ⟨bs, hbs, -, rfl⟩ := h
  obtain ⟨animation, hanimation, rfl⟩ := List.mem_map.mp ha
  obtain ⟨block, hblock, hanimation⟩ := List.mem_filterMap.mp hanimation
  obtain ⟨us, hus, hblock⟩ := hbs.exists_phrase block hblock
  cases hblock with
  | pose _ => cases hanimation
  | animation hkeyframes =>
    cases hanimation
    obtain ⟨vs, hvs, hphrase⟩ := hkeyframes.exists_phrase k hk
    cases hphrase with
    | @mk time pose s₁' _ _ _ =>
      refine ⟨⟨.number time, s₁'⟩, hus ?_, rfl⟩
      have hmem := hvs List.mem_cons_self
      simp [hmem]
  | main _ => cases hanimation

theorem denotes_of_parse {limits : InputLimits} {source : String} {D : Document} (h : parse limits source = .ok D) :
    ∃ ts, tokenize source = .ok ts ∧ Denotes ts.list D := by
  unfold parse at h
  split at h
  · cases h
  · split at h
    next ts hts => exact ⟨ts, hts, ((readDocument_iff ts).mp h).1⟩
    · cases h

/-- The times of a document that was read are finite and have no sign. -/
theorem isMagnitude_time {limits : InputLimits} {source : String} {D : Document} (h : parse limits source = .ok D)
    {a : String × Animation} (ha : a ∈ D.animations) {k : Keyframe} (hk : k ∈ a.2.keyframes) :
    IsMagnitude k.time := by
  obtain ⟨ts, hts, hD⟩ := denotes_of_parse h
  obtain ⟨t, ht, htime⟩ := exists_token_time hD ha hk
  exact isMagnitude_of_tokenize hts ht htime

/-- The times of a document that was read are numbers. -/
theorem isNumber_time {limits : InputLimits} {source : String} {D : Document} (h : parse limits source = .ok D)
    {a : String × Animation} (ha : a ∈ D.animations) {k : Keyframe} (hk : k ∈ a.2.keyframes) : IsNumber k.time :=
  .of_isFinite (isMagnitude_time h ha hk).1

/-- Numbers in the order of their keys ascend, if no two neighbours are equal. -/
theorem ascending_of_repeated? {ks : List Keyframe} (hnumber : ∀ k ∈ ks, IsNumber k.time)
    (hsorted : ks.Pairwise fun a b => orderKey a.time ≤ orderKey b.time) (h : repeated? ks = none) :
    ks.Pairwise (·.time < ·.time) := by
  fun_induction repeated? ks with
  | case1 a b ks heq => cases h
  | case2 a b ks hne ih =>
    obtain ⟨hab, hsorted⟩ := List.pairwise_cons.mp hsorted
    have htail := ih (fun k hk => hnumber k (List.mem_cons_of_mem _ hk)) hsorted h
    have hlt : a.time < b.time := lt_of_orderKey_le (hnumber a (by simp)) (hnumber b (by simp)) (hab b (by simp))
      (eq_false_of_ne_true hne)
    -- what comes after `b` is greater than `b`, so it is greater than `a`
    refine List.pairwise_cons.mpr ⟨fun c hc => ?_, htail⟩
    rcases List.mem_cons.mp hc with rfl | hc
    · exact hlt
    · exact float_lt_trans hlt (List.rel_of_pairwise_cons htail hc)
  | case3 ks hshort =>
    match ks, hshort with
    | [], _ => exact .nil
    | [k], _ => exact List.pairwise_singleton _ _
    | a :: b :: ks, hshort => exact absurd rfl (hshort a b ks)

theorem orderKey_trans (a b c : Keyframe) (hab : decide (orderKey a.time ≤ orderKey b.time) = true)
    (hbc : decide (orderKey b.time ≤ orderKey c.time) = true) : decide (orderKey a.time ≤ orderKey c.time) = true :=
  decide_eq_true ((of_decide_eq_true hab).trans (of_decide_eq_true hbc))

theorem orderKey_total (a b : Keyframe) :
    (decide (orderKey a.time ≤ orderKey b.time) || decide (orderKey b.time ≤ orderKey a.time)) = true := by
  simpa using Nat.le_total (orderKey a.time) (orderKey b.time)

theorem pairwise_sortKeyframes (ks : List Keyframe) :
    (sortKeyframes ks).Pairwise fun a b => orderKey a.time ≤ orderKey b.time :=
  (List.pairwise_mergeSort orderKey_trans orderKey_total ks).imp of_decide_eq_true

theorem sortKeyframes_perm (ks : List Keyframe) : (sortKeyframes ks).Perm ks := List.mergeSort_perm _ _

theorem resolve_eq_ok_iff {poses : List (String × Posture)} {k : Keyframe} {p : TimedPose} :
    k.resolve poses = .ok p ↔ p.time = k.time ∧ poses.lookup k.pose = some p.pose := by
  obtain ⟨time, pose⟩ := p
  unfold Keyframe.resolve
  cases poses.lookup k.pose with
  | none => simp
  | some pose => simp [eq_comm]

theorem track_of_repeated? {poses : List (String × Posture)} {a : Animation} {k : Keyframe}
    (h : repeated? (sortKeyframes a.keyframes) = some k) :
    a.track poses = .error (.duplicateTime a.name k.time k.span.location) := by
  simp only [Animation.track, h]

theorem track_of_repeated?_eq_none {poses : List (String × Posture)} {a : Animation}
    (h : repeated? (sortKeyframes a.keyframes) = none) :
    a.track poses = (do
      let keyframes ← (sortKeyframes a.keyframes).mapM (Keyframe.resolve poses)
      return ⟨a.name, keyframes⟩) := by
  simp only [Animation.track, h]

/-- A track has the keyframes as they are sorted, no two of which have one time, and the postures that go by
their poses' names. -/
theorem track_eq_ok_iff {poses : List (String × Posture)} {a : Animation} {t : Track} :
    a.track poses = .ok t ↔ t.name = a.name ∧ repeated? (sortKeyframes a.keyframes) = none ∧
      List.Forall₂ (fun k p => p.time = k.time ∧ poses.lookup k.pose = some p.pose)
        (sortKeyframes a.keyframes) t.keyframes := by
  cases hrepeated : repeated? (sortKeyframes a.keyframes) with
  | some k => simp [track_of_repeated? hrepeated]
  | none =>
    rw [track_of_repeated?_eq_none hrepeated, bind_eq_ok_iff]
    simp only [mapM_eq_ok_iff, resolve_eq_ok_iff]
    constructor
    · rintro ⟨keyframes, hkeyframes, h⟩
      cases h
      exact ⟨rfl, trivial, hkeyframes⟩
    · rintro ⟨hname, -, hkeyframes⟩
      obtain ⟨name, keyframes⟩ := t
      obtain rfl : name = a.name := hname
      exact ⟨keyframes, hkeyframes, rfl⟩

/-- Sorting puts keyframes in order, unless two have one time. -/
theorem inOrder_sortKeyframes {a : Animation} (hnumber : ∀ k ∈ a.keyframes, IsNumber k.time)
    (h : repeated? (sortKeyframes a.keyframes) = none) : a.InOrder (sortKeyframes a.keyframes) := by
  have hperm := sortKeyframes_perm a.keyframes
  exact ⟨hperm, ascending_of_repeated? (fun k hk => hnumber k (hperm.mem_iff.mp hk))
    (pairwise_sortKeyframes a.keyframes) h⟩

/-- The keyframes of a track are those of its animation in order. -/
theorem inOrder_of_track {poses : List (String × Posture)} {a : Animation} {t : Track}
    (hnumber : ∀ k ∈ a.keyframes, IsNumber k.time) (h : a.track poses = .ok t) :
    t.name = a.name ∧ ∃ ks, a.InOrder ks ∧
      List.Forall₂ (fun k p => p.time = k.time ∧ poses.lookup k.pose = some p.pose) ks t.keyframes := by
  obtain ⟨hname, hrepeated, hkeyframes⟩ := track_eq_ok_iff.mp h
  exact ⟨hname, _, inOrder_sortKeyframes hnumber hrepeated, hkeyframes⟩

/-! ### Playing -/

/-- A posture has the values that a pose says. -/
def Posture.Shows (q : Posture) (p : Pose) : Prop := ∀ b x, (q.bone b).get x = p.value b x

/-- A keyframe of a timeline is a moment that is played. -/
def PlayedKeyframe.Shows (k : PlayedKeyframe) (m : Moment) : Prop := k.time = m.time ∧ k.pose.Shows m.pose

/-- The postures of a checked document have the names and show the poses under which they stand. -/
theorem exists_pose_of_mem {D : Document} {C : Checked} (h : D.check = .ok C) {name : String} {q : Posture}
    (hq : (name, q) ∈ C.postures) : q.name = name ∧ ∃ p, (name, p) ∈ D.poses ∧ q.Shows p := by
  obtain ⟨checked, hchecked, h⟩ := bind_eq_ok_iff.mp h
  cases h
  obtain ⟨⟨key, pose⟩, hpose, heq⟩ := List.mem_map.mp hq
  cases heq
  obtain ⟨r, hr, heq⟩ := List.mem_map.mp hpose
  obtain ⟨⟨key', p⟩, hp, hcheck⟩ := exists_of_mapM hchecked hr
  obtain ⟨result, hresult, hcheck⟩ := bind_eq_ok_iff.mp hcheck
  cases hcheck
  cases heq
  refine ⟨?_, p, hp, get_posture hresult⟩
  obtain ⟨_, -, hresult⟩ := bind_eq_ok_iff.mp hresult
  cases hresult
  exact Posture.name_foldl_apply _ _

/-- Tracks under the names of a document's animations: the keyframes in order, with postures that show
their poses. -/
def AreTracks (D : Document) (tracks : List Track) : Prop :=
  ∀ name track, tracks.find? (·.name = name) = some track →
    ∃ a ks, (name, a) ∈ D.animations ∧ a.InOrder ks ∧
      List.Forall₂ (fun k p => p.time = k.time ∧ ∃ pose, (k.pose, pose) ∈ D.poses ∧ p.pose.Shows pose)
        ks track.keyframes

/-- A track that is found by a name is that of an animation of this name. -/
theorem exists_animation_of_find? {poses : List (String × Posture)} {animations : List (String × Animation)}
    {tracks : List Track} (hkey : ∀ a ∈ animations, a.1 = a.2.name)
    (h : animations.mapM (fun (_, a) => a.track poses) = .ok tracks) {name : String} {track : Track}
    (htrack : tracks.reverse.find? (·.name = name) = some track) :
    ∃ a, (name, a) ∈ animations ∧ a.track poses = .ok track := by
  obtain ⟨⟨key, a⟩, ha, hatrack⟩ := exists_of_mapM h (List.mem_reverse.mp (List.mem_of_find?_eq_some htrack))
  have hfound : track.name = name := by simpa using List.find?_some htrack
  obtain rfl : key = name := (hkey _ ha).trans ((track_eq_ok_iff.mp hatrack).1.symm.trans hfound)
  exact ⟨a, ha, hatrack⟩

theorem areTracks_of_mapM {D : Document} {C : Checked} {tracks : List Track} (hD : D.WellFormed)
    (hnumber : ∀ a ∈ D.animations, ∀ k ∈ a.2.keyframes, IsNumber k.time) (hC : D.check = .ok C)
    (h : D.animations.mapM (fun (_, a) => a.track C.postures) = .ok tracks) : AreTracks D tracks.reverse := by
  intro name track htrack
  obtain ⟨a, ha, hatrack⟩ := exists_animation_of_find? hD.animationKey h htrack
  obtain ⟨-, ks, hks, hkeyframes⟩ := inOrder_of_track (hnumber _ ha) hatrack
  exact ⟨a, ks, ha, hks, hkeyframes.imp fun k p hp => ⟨hp.1, (exists_pose_of_mem hC (mem_of_lookup hp.2)).2⟩⟩

/-- The keyframes of a track that begins at a time are moments. -/
theorem exists_moments {D : Document} {ks : List Keyframe} {ps : List TimedPose} (start : Float) (name : String)
    (h : List.Forall₂ (fun k p => p.time = k.time ∧ ∃ pose, (k.pose, pose) ∈ D.poses ∧ p.pose.Shows pose) ks ps) :
    ∃ ms, List.Forall₂ (fun k m => m.time = start + k.time ∧ (k.pose, m.pose) ∈ D.poses) ks ms ∧
      List.Forall₂ (fun m k => k.Shows m) ms (Track.playedFrom ⟨name, ps⟩ start) := by
  induction h with
  | nil => exact ⟨[], .nil, .nil⟩
  | @cons k p ks ps hp _ ih =>
    obtain ⟨htime, pose, hpose, hshows⟩ := hp
    obtain ⟨ms, hks, hms⟩ := ih
    exact ⟨⟨start + k.time, pose⟩ :: ms, .cons ⟨rfl, hpose⟩ hks, .cons ⟨congrArg (start + ·) htime, hshows⟩ hms⟩

/-- A track ends at the time of its last keyframe. -/
theorem duration_eq_lastTime (name : String) {ks : List Keyframe} {ps : List TimedPose}
    (h : List.Forall₂ (fun k p => p.time = k.time) ks ps) : (Track.mk name ps).duration = lastTime ks := by
  have htimes : ks.map (·.time) = ps.map (·.time) := map_eq_map_of_forall₂ (h.imp fun _ _ hp => hp.symm)
  unfold Track.duration lastTime
  rw [← List.getLast?_map, ← List.getLast?_map, htimes]

theorem size_append_playedFrom (done : Array PlayedKeyframe) (track : Track) (start : Float) :
    (done ++ track.playedFrom start).size = done.size + track.keyframes.length := by
  rw [← Array.length_toList, Array.toList_appendList, List.length_append, Array.length_toList, Track.playedFrom,
    List.length_map]

theorem play_cons_eq_ok {limits : InputLimits} {tracks : List Track} {done : Array PlayedKeyframe} {start : Float}
    {e : PlayEntry} {es : List PlayEntry} {t : Timeline} (h : play limits tracks done start (e :: es) = .ok t) :
    ∃ track, tracks.find? (·.name = e.animation) = some track ∧
      done.size + track.keyframes.length ≤ limits.timelineKeyframes ∧
      play limits tracks (done ++ track.playedFrom start) (start + track.duration) es = .ok t := by
  rw [play] at h
  split at h
  · cases h
  next track htrack =>
    split at h
    · cases h
    next hroom => exact ⟨track, htrack, Nat.le_of_not_lt hroom, h⟩

/-- Playing entries adds the moments that they play to what was played before. -/
theorem plays_of_play {limits : InputLimits} {D : Document} {tracks : List Track} (htracks : AreTracks D tracks)
    {done : Array PlayedKeyframe} {start : Float} {es : List PlayEntry} {t : Timeline}
    (h : play limits tracks done start es = .ok t) :
    ∃ ms rest, Plays D start es ms ∧ t.keyframes = done.toList ++ rest ∧
      List.Forall₂ (fun m k => k.Shows m) ms rest := by
  induction es generalizing done start with
  | nil =>
    cases h
    exact ⟨[], [], .nil, (List.append_nil _).symm, .nil⟩
  | cons e es ih =>
    obtain ⟨track, htrack, -, h⟩ := play_cons_eq_ok h
    obtain ⟨a, ks, ha, hks, hkeyframes⟩ := htracks e.animation track htrack
    obtain ⟨ms, hms, hplayed⟩ := exists_moments start track.name hkeyframes
    have hduration := duration_eq_lastTime track.name (hkeyframes.imp fun _ _ hp => hp.1)
    obtain ⟨ms', rest, hplays, hrest, hshows⟩ := ih h
    rw [Array.toList_appendList, List.append_assoc] at hrest
    rw [hduration] at hplays
    exact ⟨ms ++ ms', track.playedFrom start ++ rest, .cons ha hks hms hplays, hrest, List.rel_append hplayed hshows⟩

/-- The timeline of a checked document plays the tracks of its animations. -/
theorem timeline_eq_ok_iff {limits : InputLimits} {D : Document} {C : Checked} {t : Timeline} (hC : D.check = .ok C) :
    C.timeline limits = .ok t ↔
      ∃ tracks, D.animations.mapM (fun (_, a) => a.track C.postures) = .ok tracks ∧
        play limits tracks.reverse #[] 0 D.main = .ok t := by
  obtain ⟨checked, -, hC⟩ := bind_eq_ok_iff.mp hC
  cases hC
  exact bind_eq_ok_iff

/-- **A timeline shows what its document plays.** -/
theorem plays_of_timeline {limits : InputLimits} {source : String} {D : Document} {C : Checked} {t : Timeline}
    (hD : parse limits source = .ok D) (hC : D.check = .ok C) (ht : C.timeline limits = .ok t) :
    ∃ ms, Plays D 0 D.main ms ∧ List.Forall₂ (fun m k => k.Shows m) ms t.keyframes := by
  obtain ⟨ts, -, hdenotes⟩ := denotes_of_parse hD
  obtain ⟨tracks, htracks, h⟩ := (timeline_eq_ok_iff hC).mp ht
  have hare := areTracks_of_mapM hdenotes.wellFormed (fun a ha k hk => isNumber_time hD ha hk) hC htracks
  obtain ⟨ms, rest, hplays, hrest, hshows⟩ := plays_of_play hare h
  rw [Array.toList_empty, List.nil_append] at hrest
  exact ⟨ms, hplays, hrest ▸ hshows⟩

end PoseLang

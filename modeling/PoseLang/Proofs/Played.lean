import PoseLang.Motion.Encode
import PoseLang.Proofs.Motion.Frames
import PoseLang.Proofs.Timeline

/-!
# Only what is played counts

The motion that is written for a document depends on what `main` reaches and on nothing else. `SamePlay`
compares two documents in just this: they play the same animations in the same order, these have the same
keyframes in any order, and the poses of the keyframes do the same with each bone, whatever they do with
other bones in between. Definitions that are not reached, the order of definitions and the places in the text
are not compared.

A time that is not a number has no place in an order: keyframes at such a time stay in the order of the text.
They have no frame either, so nothing is written. `Alike` takes care of this: two timelines have the same times in
any case, and they are the same if the times are numbers.

What is proved:

* a pose gives a bone what its deeds with this bone say (`value_of_deeds`);
* sorting gives the same times (`map_time_sortKeyframes`), and the same keyframes if their times are numbers
  (`map_showing_sortKeyframes`), so tracks are alike (`alike_track`);
* one entry after the other, timelines stay alike (`alike_play`), and timelines that are alike are written alike
  (`encode_eq_of_alike`);
* documents that play the same are written in the same way (`encode_eq_of_samePlay`).
-/

namespace PoseLang

/-! ### Times that have a frame -/

/-- Only numbers have frames. -/
theorem isNumber_of_frames {t : Timeline} {rate : Float} {frames : List Nat} (h : t.frames rate = .ok frames) :
    ∀ k ∈ t.keyframes, IsNumber k.time := by
  intro k hk
  obtain ⟨i, rfl⟩ := List.get_of_mem hk
  obtain ⟨n, hn, -⟩ := ((Timeline.frames_eq_ok_iff.mp h).1 i).hasNominal
  by_contra htime
  rw [Timeline.nearest?, mul_eq_nan htime, nearestInteger?_nan] at hn
  cases hn

/-! ### What a pose does with a bone -/

/-- What a clause does, wherever it stands. -/
def Clause.motion (c : Clause) : Action × Direction × Float := (c.action, c.direction, c.magnitude)

/-- What a deed does, wherever it stands: its motions, or nothing but a reset. -/
def Deed.motions : Deed → Option (List (Action × Direction × Float))
  | .reset => none
  | .actions clauses => some (clauses.map Clause.motion)

/-- What a pose does with a bone, in order. -/
def Pose.deeds (p : Pose) (b : Bone) : List (Option (List (Action × Direction × Float))) :=
  (p.statements.filter (·.bone = b)).map (·.deed.motions)

/-- The number that a deed gives to an axis of a bone. -/
def Deed.value? (d : Deed) (b : Bone) (x : Axis) : Option Float :=
  match d with
  | .reset => some 0
  | .actions clauses => clauses.findSome? (·.value? b x)

theorem value?_of_motion {c c' : Clause} (h : c.motion = c'.motion) (b : Bone) (x : Axis) :
    c.value? b x = c'.value? b x := by
  simp only [Clause.motion, Prod.mk.injEq] at h
  simp only [Clause.value?, Clause.cut, h]

theorem value?_of_motions {d d' : Deed} (h : d.motions = d'.motions) (b : Bone) (x : Axis) :
    d.value? b x = d'.value? b x := by
  cases d with
  | reset =>
    cases d' with
    | reset => rfl
    | actions => cases h
  | actions clauses =>
    cases d' with
    | reset => cases h
    | actions clauses' =>
      exact findSome?_eq_of_map (fun _ _ hc => value?_of_motion hc b x) (Option.some.inj h)

/-- The value of a bone depends on what the pose does with this bone. -/
theorem value_of_deeds {p p' : Pose} {b : Bone} (h : p.deeds b = p'.deeds b) (x : Axis) :
    p.value b x = p'.value b x := by
  have hvalue (q : Pose) : q.value b x =
      ((q.statements.filter (·.bone = b)).reverse.findSome? (·.deed.value? b x)).getD 0 := by
    rw [← List.filter_reverse, findSome?_filter, Pose.value]
    congr 2
    funext s
    by_cases hs : s.bone = b
    · subst hs
      simp only [decide_true, if_true]
      rfl
    · simp [hs]
  rw [hvalue, hvalue]
  congr 1
  refine findSome?_eq_of_map (fun s s' hs => value?_of_motions hs b x) ?_
  rw [List.map_reverse, List.map_reverse]
  exact congrArg List.reverse h

/-! ### What two documents play -/

/-- What a keyframe shows, wherever it stands. -/
def Keyframe.showing (k : Keyframe) : Float × String := (k.time, k.pose)

/-- Two documents play the same animations, with the same keyframes in any order, and the poses of these
keyframes do the same with each bone. -/
structure SamePlay (D D' : Document) : Prop where
  main : D.main.map (·.animation) = D'.main.map (·.animation)
  keyframes : ∀ e ∈ D.main, ∀ a a', (e.animation, a) ∈ D.animations → (e.animation, a') ∈ D'.animations →
    (a.keyframes.map Keyframe.showing).Perm (a'.keyframes.map Keyframe.showing)
  deeds : ∀ e ∈ D.main, ∀ a, (e.animation, a) ∈ D.animations → ∀ k ∈ a.keyframes, ∀ p p',
    (k.pose, p) ∈ D.poses → (k.pose, p') ∈ D'.poses → ∀ b, p.deeds b = p'.deeds b

/-- Lists with the same times, and the same lists if the times are numbers. -/
structure Alike {α : Type} (time : α → Float) (l l' : List α) : Prop where
  times : l.map time = l'.map time
  eq_of_numbers : (∀ a ∈ l, IsNumber (time a)) → l = l'

theorem Alike.append {α : Type} {time : α → Float} {l l' m m' : List α} (h : Alike time l l')
    (hm : Alike time m m') : Alike time (l ++ m) (l' ++ m') := by
  refine ⟨?_, fun hnumber => ?_⟩
  · rw [List.map_append, List.map_append, h.times, hm.times]
  · rw [List.forall_mem_append] at hnumber
    rw [h.eq_of_numbers hnumber.1, hm.eq_of_numbers hnumber.2]

/-! ### Tracks -/

/-- The times of keyframes, sorted, do not depend on the order of the text. -/
theorem map_time_sortKeyframes {ks ks' : List Keyframe}
    (h : (ks.map Keyframe.showing).Perm (ks'.map Keyframe.showing)) :
    (sortKeyframes ks).map (·.time) = (sortKeyframes ks').map (·.time) := by
  have hperm : ((sortKeyframes ks).map (·.time)).Perm ((sortKeyframes ks').map (·.time)) := by
    have htimes := h.map Prod.fst
    rw [List.map_map, List.map_map] at htimes
    exact ((sortKeyframes_perm ks).map _).trans (htimes.trans ((sortKeyframes_perm ks').map _).symm)
  have hsorted (ks : List Keyframe) :
      ((sortKeyframes ks).map (·.time)).Pairwise fun x y => orderKey x ≤ orderKey y :=
    List.pairwise_map.mpr (pairwise_sortKeyframes ks)
  exact hperm.eq_of_pairwise (fun x y _ _ hxy hyx => orderKey_injective (Nat.le_antisymm hxy hyx))
    (hsorted ks) (hsorted ks')

/-- Keyframes that are numbers have one order. -/
theorem map_showing_sortKeyframes {ks ks' : List Keyframe}
    (h : (ks.map Keyframe.showing).Perm (ks'.map Keyframe.showing))
    (hks : (sortKeyframes ks).Pairwise (·.time < ·.time)) (hks' : (sortKeyframes ks').Pairwise (·.time < ·.time)) :
    (sortKeyframes ks).map Keyframe.showing = (sortKeyframes ks').map Keyframe.showing := by
  have hperm : ((sortKeyframes ks).map Keyframe.showing).Perm ((sortKeyframes ks').map Keyframe.showing) :=
    ((sortKeyframes_perm ks).map _).trans (h.trans ((sortKeyframes_perm ks').map _).symm)
  have hascending {ls : List Keyframe} (hls : ls.Pairwise (·.time < ·.time)) :
      (ls.map Keyframe.showing).Pairwise (·.1 < ·.1) := List.pairwise_map.mpr hls
  exact hperm.eq_of_pairwise (fun _ _ _ _ hab hba => absurd hba (float_lt_asymm hab)) (hascending hks) (hascending hks')

/-- Keyframes that show the same have the same postures, if the names mean the same. -/
theorem eq_of_showing {poses poses' : List (String × Posture)} {ks ks' : List Keyframe} {ps ps' : List TimedPose}
    (hshowing : ks.map Keyframe.showing = ks'.map Keyframe.showing)
    (h : List.Forall₂ (fun k p => p.time = k.time ∧ poses.lookup k.pose = some p.pose) ks ps)
    (h' : List.Forall₂ (fun k p => p.time = k.time ∧ poses'.lookup k.pose = some p.pose) ks' ps')
    (hposes : ∀ k ∈ ks, ∀ q q', (k.pose, q) ∈ poses → (k.pose, q') ∈ poses' → q = q') : ps = ps' := by
  induction h generalizing ks' ps' with
  | nil =>
    rw [List.map_nil, eq_comm, List.map_eq_nil_iff] at hshowing
    subst hshowing
    cases h'
    rfl
  | @cons k p ks ps hp _ ih =>
    obtain ⟨k', ks'', rfl, hk, hks⟩ := List.map_eq_cons_iff.mp hshowing.symm
    cases h' with
    | @cons _ p' _ ps' hp' hps' =>
      simp only [Keyframe.showing, Prod.mk.injEq] at hk
      rw [hk.1, hk.2] at hp'
      have htime : p.time = p'.time := hp.1.trans hp'.1.symm
      have hpose : p.pose = p'.pose := hposes k List.mem_cons_self _ _ (mem_of_lookup hp.2) (mem_of_lookup hp'.2)
      have hrest := ih hks.symm hps' fun k hk => hposes k (List.mem_cons_of_mem _ hk)
      obtain ⟨time, pose⟩ := p
      obtain ⟨time', pose'⟩ := p'
      cases htime
      cases hpose
      rw [hrest]

/-- The tracks of animations with the same keyframes are alike. -/
theorem alike_track {poses poses' : List (String × Posture)} {a a' : Animation} {t t' : Track}
    (h : a.track poses = .ok t) (h' : a'.track poses' = .ok t')
    (hkeyframes : (a.keyframes.map Keyframe.showing).Perm (a'.keyframes.map Keyframe.showing))
    (hposes : ∀ k ∈ a.keyframes, ∀ q q', (k.pose, q) ∈ poses → (k.pose, q') ∈ poses' → q = q') :
    Alike (·.time) t.keyframes t'.keyframes := by
  obtain ⟨-, hrepeated, hresolved⟩ := track_eq_ok_iff.mp h
  obtain ⟨-, hrepeated', hresolved'⟩ := track_eq_ok_iff.mp h'
  have htimes : (sortKeyframes a.keyframes).map (·.time) = t.keyframes.map (·.time) :=
    map_eq_map_of_forall₂ (hresolved.imp fun _ _ hp => hp.1.symm)
  have htimes' : (sortKeyframes a'.keyframes).map (·.time) = t'.keyframes.map (·.time) :=
    map_eq_map_of_forall₂ (hresolved'.imp fun _ _ hp => hp.1.symm)
  have hsame := map_time_sortKeyframes hkeyframes
  refine ⟨htimes.symm.trans (hsame.trans htimes'), fun hnumber => ?_⟩
  -- The sorted times are the same, so those of the second track are numbers too, and both ascend.
  have hnumbers : ∀ x ∈ (sortKeyframes a.keyframes).map (·.time), IsNumber x := by
    rw [htimes]
    exact List.forall_mem_map.mpr hnumber
  have hascending := ascending_of_repeated? (List.forall_mem_map.mp hnumbers) (pairwise_sortKeyframes _) hrepeated
  rw [hsame] at hnumbers
  have hascending' := ascending_of_repeated? (List.forall_mem_map.mp hnumbers) (pairwise_sortKeyframes _) hrepeated'
  refine eq_of_showing (map_showing_sortKeyframes hkeyframes hascending hascending') hresolved hresolved' ?_
  exact fun k hk => hposes k ((sortKeyframes_perm _).mem_iff.mp hk)

/-! ### Timelines -/

theorem alike_playedFrom {t t' : Track} (h : Alike (·.time) t.keyframes t'.keyframes) (hname : t.name = t'.name)
    (start : Float) : Alike (·.time) (t.playedFrom start) (t'.playedFrom start) := by
  unfold Track.playedFrom
  refine ⟨?_, fun hnumber => ?_⟩
  · have hshifted := congrArg (List.map (start + ·)) h.times
    rw [List.map_map, List.map_map] at hshifted ⊢
    exact hshifted
  · have hkeyframes := h.eq_of_numbers fun k hk => (List.forall_mem_map.mp hnumber k hk).of_add
    rw [hkeyframes, hname]

theorem duration_eq_getLast? (t : Track) : t.duration = ((t.keyframes.map (·.time)).getLast?).getD 0 := by
  rw [List.getLast?_map]
  rfl

/-- Playing tracks that are alike gives timelines that are alike. -/
theorem alike_play {limits limits' : InputLimits} {tracks tracks' : List Track} {done done' : Array PlayedKeyframe}
    {start : Float} {es es' : List PlayEntry} {t t' : Timeline}
    (hnames : es.map (·.animation) = es'.map (·.animation))
    (htracks : ∀ e ∈ es, ∀ track track', tracks.find? (·.name = e.animation) = some track →
      tracks'.find? (·.name = e.animation) = some track' → Alike (·.time) track.keyframes track'.keyframes)
    (hdone : Alike (·.time) done.toList done'.toList) (h : play limits tracks done start es = .ok t)
    (h' : play limits' tracks' done' start es' = .ok t') : Alike (·.time) t.keyframes t'.keyframes := by
  induction es generalizing es' done done' start with
  | nil =>
    rw [List.map_nil, eq_comm, List.map_eq_nil_iff] at hnames
    subst hnames
    cases h
    cases h'
    exact hdone
  | cons e es ih =>
    obtain ⟨e', es'', rfl, hname, hnames⟩ := List.map_eq_cons_iff.mp hnames.symm
    obtain ⟨track, htrack, -, h⟩ := play_cons_eq_ok h
    obtain ⟨track', htrack', -, h'⟩ := play_cons_eq_ok h'
    rw [hname] at htrack'
    have halike := htracks e List.mem_cons_self track track' htrack htrack'
    have hfound : track.name = e.animation := by simpa using List.find?_some htrack
    have hfound' : track'.name = e.animation := by simpa using List.find?_some htrack'
    have hduration : track.duration = track'.duration := by
      rw [duration_eq_getLast?, duration_eq_getLast?, halike.times]
    rw [← hduration] at h'
    refine ih hnames.symm (fun e he => htracks e (List.mem_cons_of_mem _ he)) ?_ h h'
    rw [Array.toList_appendList, Array.toList_appendList]
    exact hdone.append (alike_playedFrom halike (hfound.trans hfound'.symm) start)

/-- Timelines that are alike are written in the same way. -/
theorem encode_eq_of_alike {t t' : Timeline} (h : Alike (·.time) t.keyframes t'.keyframes) (config : Config) :
    t.encode config = t'.encode config := by
  have hframes : t.frames config.frameRate = t'.frames config.frameRate := by
    unfold Timeline.frames
    rw [h.times]
  -- Without frames both fail for the same reason; with frames all times are numbers.
  cases hplan : t.frames config.frameRate with
  | error e =>
    unfold Timeline.encode
    rw [← hframes, hplan]
    rfl
  | ok frames =>
    have hkeyframes := h.eq_of_numbers (isNumber_of_frames hplan)
    obtain ⟨keyframes⟩ := t
    obtain ⟨keyframes'⟩ := t'
    obtain rfl : keyframes = keyframes' := hkeyframes
    rfl

/-- **What is written for a document depends only on what it plays.** -/
theorem encode_eq_of_samePlay {limits limits' : InputLimits} {D D' : Document} {C C' : Checked} {t t' : Timeline}
    (hD : ∀ a ∈ D.animations, a.1 = a.2.name) (hD' : ∀ a ∈ D'.animations, a.1 = a.2.name)
    (hC : D.check = .ok C) (hC' : D'.check = .ok C') (ht : C.timeline limits = .ok t)
    (ht' : C'.timeline limits' = .ok t') (hsame : SamePlay D D') (config : Config) :
    t.encode config = t'.encode config ∧ t.duration = t'.duration := by
  obtain ⟨tracks, htracks, h⟩ := (timeline_eq_ok_iff hC).mp ht
  obtain ⟨tracks', htracks', h'⟩ := (timeline_eq_ok_iff hC').mp ht'
  have halike : Alike (·.time) t.keyframes t'.keyframes := by
    refine alike_play hsame.main (fun e he track track' htrack htrack' => ?_) ⟨rfl, fun _ => rfl⟩ h h'
    obtain ⟨a, ha, hatrack⟩ := exists_animation_of_find? hD htracks htrack
    obtain ⟨a', ha', hatrack'⟩ := exists_animation_of_find? hD' htracks' htrack'
    refine alike_track hatrack hatrack' (hsame.keyframes e he a a' ha ha') fun k hk q q' hq hq' => ?_
    obtain ⟨hname, p, hp, hshows⟩ := exists_pose_of_mem hC hq
    obtain ⟨hname', p', hp', hshows'⟩ := exists_pose_of_mem hC' hq'
    refine Posture.eq_of_get (hname.trans hname'.symm) fun b x => ?_
    rw [hshows, hshows', value_of_deeds (hsame.deeds e he a ha k hk p p' hp hp' b)]
  refine ⟨encode_eq_of_alike halike config, ?_⟩
  unfold Timeline.duration
  rw [← List.getLast?_map, ← List.getLast?_map, halike.times]

/-- A nod that begins upright; the last keyframe comes first. -/
def nodDown : Document where
  poses := [("upright", ⟨"upright", [], default⟩),
    ("nod", ⟨"nod", [⟨.head, .actions [⟨.bend, .forward, 10, default⟩], default⟩,
      ⟨.neck, .actions [⟨.bend, .forward, 5, default⟩], default⟩], default⟩)]
  animations := [("nodding", ⟨"nodding", [⟨1, "nod", default⟩, ⟨0, "upright", default⟩], default⟩)]
  main := [⟨"nodding", default⟩]

/-- The same nod, with the poses, the statements and the keyframes in another order, and with a pose that is not
reached. -/
def nodUp : Document where
  poses := [("nod", ⟨"nod", [⟨.neck, .actions [⟨.bend, .forward, 5, default⟩], default⟩,
      ⟨.head, .actions [⟨.bend, .forward, 10, default⟩], default⟩], default⟩),
    ("spare", ⟨"spare", [⟨.head, .reset, default⟩], default⟩), ("upright", ⟨"upright", [], default⟩)]
  animations := [("nodding", ⟨"nodding", [⟨0, "upright", default⟩, ⟨1, "nod", default⟩], default⟩)]
  main := [⟨"nodding", default⟩]

theorem samePlay_nod : SamePlay nodDown nodUp := by
  refine ⟨rfl, ?_, ?_⟩
  · intro e he a a' ha ha'
    obtain rfl : e = ⟨"nodding", default⟩ := by simpa [nodDown] using he
    simp [nodDown, nodUp] at ha ha'
    subst ha ha'
    exact List.Perm.swap _ _ _
  · intro e he a ha k hk p p' hp hp' b
    obtain rfl : e = ⟨"nodding", default⟩ := by simpa [nodDown] using he
    simp [nodDown] at ha
    subst ha
    simp [nodDown, nodUp] at hk hp hp'
    rcases hk with rfl | rfl
    · simp at hp hp'
      subst hp hp'
      cases b <;> rfl
    · simp at hp hp'
      subst hp hp'
      rfl

/-- The posture of the nod. -/
def nodPosture : Posture :=
  ((Posture.rest "nod").setBone .neck (Transform.rest.set .pitch 5)).setBone .head (Transform.rest.set .pitch 10)

theorem timeline_nod {D : Document} {postures : List (String × Posture)} {ks : List Keyframe}
    (hcheck : (do return (← D.check).postures) = Except.ok postures)
    (hanimations : D.animations = [("nodding", ⟨"nodding", ks, default⟩)]) (hmain : D.main = [⟨"nodding", default⟩])
    (hsort : sortKeyframes ks = [⟨0, "upright", default⟩, ⟨1, "nod", default⟩])
    (hupright : postures.lookup "upright" = some (.rest "upright"))
    (hnod : postures.lookup "nod" = some nodPosture) :
    ∃ C, D.check = .ok C ∧
      C.timeline {} = .ok ⟨[⟨0, "nodding", .rest "upright"⟩, ⟨1, "nodding", nodPosture⟩]⟩ := by
  obtain ⟨C, hC, h⟩ := bind_eq_ok_iff.mp hcheck
  have hpostures : C.postures = postures := Except.ok.inj h
  have hrepeated : repeated? [⟨0, "upright", default⟩, ⟨1, "nod", default⟩] = none := by decide +kernel
  have htrack : Animation.track C.postures ⟨"nodding", ks, default⟩ =
      .ok ⟨"nodding", [⟨0, .rest "upright"⟩, ⟨1, nodPosture⟩]⟩ := by
    simp [Animation.track, hsort, hrepeated, Keyframe.resolve, hpostures, hupright, hnod, bind, Except.bind, pure,
      Except.pure]
  refine ⟨C, hC, (timeline_eq_ok_iff hC).mpr ?_⟩
  rw [hanimations, hmain]
  exact ⟨_, mapM_eq_ok_iff.mpr (.cons htrack .nil), by decide +kernel⟩

theorem encode_nodDown : ∃ C C' t t', nodDown.check = .ok C ∧ nodUp.check = .ok C' ∧ C.timeline {} = .ok t ∧
    C'.timeline {} = .ok t' ∧ SamePlay nodDown nodUp ∧ t.frames 30 = .ok [0, 30] ∧
    t.encode {} = t'.encode {} ∧ t.duration = t'.duration := by
  have hlt : ¬ orderKey 1 ≤ orderKey 0 := by decide +kernel
  have hle : orderKey 0 ≤ orderKey 1 := by decide +kernel
  obtain ⟨C, hC, ht⟩ := @timeline_nod nodDown [("upright", .rest "upright"), ("nod", nodPosture)] _ (by decide +kernel)
    rfl rfl (by simp [sortKeyframes, List.mergeSort, hlt]) rfl rfl
  obtain ⟨C', hC', ht'⟩ := @timeline_nod nodUp
    [("nod", nodPosture), ("spare", .rest "spare"), ("upright", .rest "upright")] _ (by decide +kernel)
    rfl rfl (by simp [sortKeyframes, List.mergeSort, hle]) rfl rfl
  refine ⟨C, C', _, _, hC, hC', ht, ht', samePlay_nod, by decide +kernel, ?_⟩
  exact encode_eq_of_samePlay (by decide) (by decide) hC hC' ht ht' samePlay_nod {}

end PoseLang

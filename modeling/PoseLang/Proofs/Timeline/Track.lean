import PoseLang.Proofs.Number.Sum
import PoseLang.Proofs.Timeline

/-!
# The track of an animation

The keyframes of an animation may stand in any order in the text. They are sorted by time, and then only
neighbours are compared to find a time that occurs twice. This is enough: in sorted order equal times are
neighbours, and since sorting keeps keyframes of one time in the order of the text, what is found first is the
second keyframe at the least time that occurs twice.

What is proved, for times that are finite and have no sign:

* sorting keeps the keyframes at each time as they are (`filter_sortKeyframes`), so what is found in sorted
  order is what the text has (`isFirstRepeat_of_repeated?`, `repeated?_sortKeyframes_eq_none_iff`);
* an animation has a track if and only if its times differ and its poses are known, the track does not depend
  on the order of the text, and otherwise the error is about the first keyframe at fault (`track_outcome`).
-/

namespace PoseLang

/-! ### Sorting -/

/-- Sorting keeps the keyframes at one time in order. -/
theorem filter_sortKeyframes (ks : List Keyframe) (time : Float) :
    (sortKeyframes ks).filter (·.time = time) = ks.filter (·.time = time) := by
  have hsublist : (ks.filter (·.time = time)).Sublist (sortKeyframes ks) := by
    refine List.sublist_mergeSort orderKey_trans orderKey_total ?_ List.filter_sublist
    refine List.pairwise_of_forall_mem_list fun k hk k' hk' => ?_
    simp_all
  -- the keyframes at the time are a part of those in sorted order, and there are as many of them
  have hfilter := hsublist.filter (·.time = time)
  rw [List.filter_filter] at hfilter
  refine (List.Sublist.eq_of_length ?_ ?_).symm
  · simpa using hfilter
  · exact ((sortKeyframes_perm ks).filter _).length_eq.symm

/-! ### Times that occur twice -/

/-- The second keyframe at the least time that occurs twice. -/
structure IsFirstRepeat (ks : List Keyframe) (k : Keyframe) : Prop where
  second : (ks.filter (·.time = k.time))[1]? = some k
  least : ∀ time, 2 ≤ (ks.filter (·.time = time)).length → k.time ≤ time

theorem IsFirstRepeat.mem {ks : List Keyframe} {k : Keyframe} (h : IsFirstRepeat ks k) : k ∈ ks :=
  List.mem_of_mem_filter (List.mem_of_getElem? h.second)

theorem isFirstRepeat_sortKeyframes {ks : List Keyframe} {k : Keyframe} :
    IsFirstRepeat (sortKeyframes ks) k ↔ IsFirstRepeat ks k := by
  constructor
  · rintro ⟨hsecond, hleast⟩
    simp only [filter_sortKeyframes] at hsecond hleast
    exact ⟨hsecond, hleast⟩
  · rintro ⟨hsecond, hleast⟩
    refine ⟨?_, ?_⟩ <;> simpa only [filter_sortKeyframes]

/-- What is found: a keyframe with the time of its neighbour, and before it nothing of the kind. -/
theorem exists_of_repeated? {ks : List Keyframe} {k : Keyframe} (h : repeated? ks = some k) :
    ∃ before j after, ks = before ++ j :: k :: after ∧ (j.time == k.time) = true ∧
      repeated? (before ++ [j]) = none := by
  fun_induction repeated? ks with
  | case1 a b ks heq =>
    cases h
    exact ⟨[], a, ks, rfl, heq, rfl⟩
  | case2 a b ks hne ih =>
    obtain ⟨before, j, after, hks, hj, hnone⟩ := ih h
    refine ⟨a :: before, j, after, by rw [hks, List.cons_append], hj, ?_⟩
    cases before with
    | nil =>
      cases hks
      simp [repeated?, hne]
    | cons b' before =>
      cases hks
      simpa [repeated?, hne] using hnone
  | case3 => cases h

/-- Where times differ, at most one keyframe has a given time. -/
theorem length_filter_le_one {ks : List Keyframe} (h : (ks.map (·.time)).Nodup) (time : Float) :
    (ks.filter (·.time = time)).length ≤ 1 := by
  have hnodup : ((ks.filter (·.time = time)).map (·.time)).Nodup := h.sublist (List.filter_sublist.map _)
  have hsame : (ks.filter (·.time = time)).map (·.time) = List.replicate (ks.filter (·.time = time)).length time := by
    refine List.eq_replicate_iff.mpr ⟨List.length_map _, fun t ht => ?_⟩
    obtain ⟨k, hk, rfl⟩ := List.mem_map.mp ht
    exact of_decide_eq_true (List.mem_filter.mp hk).2
  rwa [hsame, List.nodup_replicate] at hnodup

/-- Times that ascend differ. -/
theorem nodup_of_ascending {ks : List Keyframe} (h : ks.Pairwise (·.time < ·.time)) : (ks.map (·.time)).Nodup := by
  refine List.pairwise_map.mpr (h.imp fun {k k'} hlt heq => ?_)
  rw [heq] at hlt
  exact float_lt_asymm hlt hlt

section Sorted

variable {ks : List Keyframe} (htime : ∀ k ∈ ks, IsTime k.time)
  (hsorted : ks.Pairwise fun k k' => orderKey k.time ≤ orderKey k'.time)

include htime hsorted

theorem pairwise_time_le : ks.Pairwise (·.time ≤ ·.time) :=
  hsorted.imp_of_mem fun hk hk' hle => ((htime _ hk).orderKey_le_iff (htime _ hk')).mp hle

/-- In sorted order, equal neighbours are found first at the least time that occurs twice. -/
theorem isFirstRepeat_of_repeated? {k : Keyframe} (h : repeated? ks = some k) : IsFirstRepeat ks k := by
  have hle := pairwise_time_le htime hsorted
  obtain ⟨before, j, after, rfl, hjk, hnone⟩ := exists_of_repeated? h
  have hfront : (before ++ [j]).Sublist (before ++ j :: k :: after) := by simp
  have hascending := ascending_of_repeated? (fun k hk => (htime k (hfront.subset hk)).isNumber)
    (hsorted.sublist hfront) hnone
  have hj : j.time = k.time := ((htime j (by simp)).beq_iff (htime k (by simp))).mp hjk
  obtain ⟨hbefore, -, hlt⟩ := List.pairwise_append.mp hascending
  constructor
  · -- nothing before `j` has its time
    have hnil : before.filter (·.time = k.time) = [] := by
      refine List.filter_eq_nil_iff.mpr fun b hb hbk => ?_
      have hbj := hlt b hb j List.mem_cons_self
      rw [hj, of_decide_eq_true hbk] at hbj
      exact float_lt_asymm hbj hbj
    simp [List.filter_append, hnil, hj]
  · -- nothing from `j` on has an earlier time, and what is before `j` ascends
    intro time htwice
    by_contra hearlier
    have hnil : (j :: k :: after).filter (·.time = time) = [] := by
      refine List.filter_eq_nil_iff.mpr fun c hc hct => hearlier ?_
      obtain ⟨-, hfrom, -⟩ := List.pairwise_append.mp hle
      rw [← of_decide_eq_true hct, ← hj]
      rcases List.mem_cons.mp hc with rfl | hc
      · exact (htime c (by simp)).le_refl
      · exact List.rel_of_pairwise_cons hfrom hc
    rw [List.filter_append, hnil, List.append_nil] at htwice
    have honce := length_filter_le_one (nodup_of_ascending hbefore) time
    omega

/-- In sorted order, times differ if no neighbours are equal. -/
theorem repeated?_eq_none_iff : repeated? ks = none ↔ (ks.map (·.time)).Nodup := by
  constructor
  · intro h
    exact nodup_of_ascending (ascending_of_repeated? (fun k hk => (htime k hk).isNumber) hsorted h)
  · intro hnodup
    refine Option.eq_none_iff_forall_ne_some.mpr fun k h => ?_
    obtain ⟨before, j, after, rfl, hjk, -⟩ := exists_of_repeated? h
    have hj : j.time = k.time := ((htime j (by simp)).beq_iff (htime k (by simp))).mp hjk
    simp [List.nodup_append, hj] at hnodup

end Sorted

variable {poses : List (String × Posture)} {a : Animation}

theorem isTime_sortKeyframes {ks : List Keyframe} (htime : ∀ k ∈ ks, IsTime k.time) :
    ∀ k ∈ sortKeyframes ks, IsTime k.time :=
  fun k hk => htime k ((sortKeyframes_perm ks).mem_iff.mp hk)

/-- Sorting finds whether the times of a text differ. -/
theorem repeated?_sortKeyframes_eq_none_iff {ks : List Keyframe} (htime : ∀ k ∈ ks, IsTime k.time) :
    repeated? (sortKeyframes ks) = none ↔ (ks.map (·.time)).Nodup := by
  rw [repeated?_eq_none_iff (isTime_sortKeyframes htime) (pairwise_sortKeyframes ks)]
  exact ((sortKeyframes_perm ks).map _).nodup_iff

/-! ### Poses -/

/-- A keyframe has a pose if the name of the pose is known. -/
theorem exists_resolve_iff {k : Keyframe} : (∃ p, k.resolve poses = .ok p) ↔ k.pose ∈ poses.map Prod.fst := by
  rw [← not_iff_not, ← lookup_eq_none_iff_notMem]
  unfold Keyframe.resolve
  cases poses.lookup k.pose with
  | none => simp
  | some pose => simp

theorem resolve_eq_error_iff {k : Keyframe} {e : CompileError} :
    k.resolve poses = .error e ↔ k.pose ∉ poses.map Prod.fst ∧ e = .unknownName .pose k.pose k.span.location := by
  rw [← lookup_eq_none_iff_notMem]
  unfold Keyframe.resolve
  cases poses.lookup k.pose with
  | none => simp [eq_comm]
  | some pose => simp

/-- The first keyframe with an unknown pose, in the order of time. -/
structure IsFirstUnknown (poses : List (String × Posture)) (ks : List Keyframe) (k : Keyframe) : Prop where
  mem : k ∈ ks
  unknown : k.pose ∉ poses.map Prod.fst
  earliest : ∀ k' ∈ ks, k'.pose ∉ poses.map Prod.fst → k.time ≤ k'.time

/-- In order of time, the search for poses ends at the first keyframe with an unknown one. -/
theorem isFirstUnknown_of_mapM {ks : List Keyframe} (htime : ∀ k ∈ ks, IsTime k.time)
    (hle : ks.Pairwise (·.time ≤ ·.time)) {e : CompileError} (h : ks.mapM (Keyframe.resolve poses) = .error e) :
    ∃ k, IsFirstUnknown poses ks k ∧ e = .unknownName .pose k.pose k.span.location := by
  obtain ⟨before, k, after, rfl, hbefore, hk⟩ := mapM_eq_error_iff.mp h
  obtain ⟨hunknown, he⟩ := resolve_eq_error_iff.mp hk
  refine ⟨k, ⟨by simp, hunknown, fun k' hk' hunknown' => ?_⟩, he⟩
  obtain ⟨-, hfrom, -⟩ := List.pairwise_append.mp hle
  rcases List.mem_append.mp hk' with hmem | hmem
  · exact absurd (exists_resolve_iff.mp (hbefore k' hmem)) hunknown'
  · rcases List.mem_cons.mp hmem with rfl | hmem
    · exact (htime k' hk').le_refl
    · exact List.rel_of_pairwise_cons hfrom hmem

/-! ### The outcome -/

section Outcome

variable (htime : ∀ k ∈ a.keyframes, IsMagnitude k.time)

include htime

/-- There is a track if and only if the times differ and the poses are known. -/
theorem exists_track_iff :
    (∃ t, a.track poses = .ok t) ↔
      (a.keyframes.map (·.time)).Nodup ∧ ∀ k ∈ a.keyframes, k.pose ∈ poses.map Prod.fst := by
  rw [← repeated?_sortKeyframes_eq_none_iff fun k hk => (htime k hk).isTime]
  cases hrepeated : repeated? (sortKeyframes a.keyframes) with
  | some k => simp [track_of_repeated? hrepeated]
  | none =>
    have hposes : (∃ ps, (sortKeyframes a.keyframes).mapM (Keyframe.resolve poses) = .ok ps) ↔
        ∀ k ∈ a.keyframes, k.pose ∈ poses.map Prod.fst := by
      simp only [exists_mapM_eq_ok_iff, exists_resolve_iff, (sortKeyframes_perm a.keyframes).mem_iff]
    rw [track_of_repeated?_eq_none hrepeated, ← hposes]
    constructor
    · rintro ⟨t, ht⟩
      obtain ⟨ps, hps, -⟩ := bind_eq_ok_iff.mp ht
      exact ⟨rfl, ps, hps⟩
    · rintro ⟨-, ps, hps⟩
      exact ⟨_, bind_eq_ok_iff.mpr ⟨ps, hps, rfl⟩⟩

/-- Where times differ, the order of the text does not matter. -/
theorem track_eq_of_perm (hnodup : (a.keyframes.map (·.time)).Nodup) {a' : Animation} (hname : a'.name = a.name)
    (hperm : a'.keyframes.Perm a.keyframes) : a'.track poses = a.track poses := by
  have hnumber : ∀ k ∈ a.keyframes, IsNumber k.time := fun k hk => (htime k hk).isTime.isNumber
  have htime' : ∀ k ∈ a'.keyframes, IsTime k.time := fun k hk => (htime k (hperm.mem_iff.mp hk)).isTime
  have hordered := inOrder_sortKeyframes hnumber
    ((repeated?_sortKeyframes_eq_none_iff fun k hk => (htime k hk).isTime).mpr hnodup)
  have hordered' := inOrder_sortKeyframes (fun k hk => (htime' k hk).isNumber)
    ((repeated?_sortKeyframes_eq_none_iff htime').mpr ((hperm.map _).nodup_iff.mpr hnodup))
  have hsort : sortKeyframes a'.keyframes = sortKeyframes a.keyframes :=
    Animation.InOrder.unique ⟨hordered'.perm.trans hperm, hordered'.ascending⟩ hordered
  rw [Animation.track, Animation.track, hsort, hname]

/-- A time that occurs twice is found before anything is said about poses. -/
theorem track_of_not_nodup (h : ¬ (a.keyframes.map (·.time)).Nodup) :
    ∃ k, IsFirstRepeat a.keyframes k ∧ a.track poses = .error (.duplicateTime a.name k.time k.span.location) := by
  have htimes : ∀ k ∈ a.keyframes, IsTime k.time := fun k hk => (htime k hk).isTime
  rw [← repeated?_sortKeyframes_eq_none_iff htimes] at h
  obtain ⟨k, hk⟩ := Option.ne_none_iff_exists'.mp h
  have hrepeat := isFirstRepeat_of_repeated? (isTime_sortKeyframes htimes) (pairwise_sortKeyframes a.keyframes) hk
  exact ⟨k, isFirstRepeat_sortKeyframes.mp hrepeat, track_of_repeated? hk⟩

/-- Where times differ, the first keyframe with an unknown pose is found. -/
theorem track_of_unknown (hnodup : (a.keyframes.map (·.time)).Nodup)
    (h : ∃ k ∈ a.keyframes, k.pose ∉ poses.map Prod.fst) :
    ∃ k, IsFirstUnknown poses a.keyframes k ∧
      a.track poses = .error (.unknownName .pose k.pose k.span.location) := by
  have htimes : ∀ k ∈ a.keyframes, IsTime k.time := fun k hk => (htime k hk).isTime
  have hperm := sortKeyframes_perm a.keyframes
  have hnone := (repeated?_sortKeyframes_eq_none_iff htimes).mpr hnodup
  cases hresolved : (sortKeyframes a.keyframes).mapM (Keyframe.resolve poses) with
  | ok ps =>
    obtain ⟨k, hk, hunknown⟩ := h
    have hknown := exists_mapM_eq_ok_iff.mp ⟨ps, hresolved⟩ k (hperm.mem_iff.mpr hk)
    exact absurd (exists_resolve_iff.mp hknown) hunknown
  | error e =>
    have hle := pairwise_time_le (isTime_sortKeyframes htimes) (pairwise_sortKeyframes a.keyframes)
    obtain ⟨k, hfirst, rfl⟩ := isFirstUnknown_of_mapM (isTime_sortKeyframes htimes) hle hresolved
    refine ⟨k, ⟨hperm.mem_iff.mp hfirst.mem, hfirst.unknown, fun k' hk' => ?_⟩, ?_⟩
    · exact hfirst.earliest k' (hperm.mem_iff.mpr hk')
    · rw [track_of_repeated?_eq_none hnone, hresolved]
      rfl

end Outcome

/-- **The track of an animation.** Let the times be finite and without a sign. There is a track if and only if the
times differ and all poses are known. It has the keyframes in ascending order of time, each with the pose of its
name, and is the same for every order in the text. If a time occurs twice, the error is about the second
keyframe at the least such time, whatever poses are known; otherwise, if a pose is not known, it is about the
first such keyframe in the order of time. -/
theorem track_outcome (htime : ∀ k ∈ a.keyframes, IsMagnitude k.time) :
    ((∃ t, a.track poses = .ok t) ↔
      (a.keyframes.map (·.time)).Nodup ∧ ∀ k ∈ a.keyframes, k.pose ∈ poses.map Prod.fst) ∧
    (∀ t, a.track poses = .ok t →
      (t.name = a.name ∧ ∃ ks, a.InOrder ks ∧
        List.Forall₂ (fun k p => p.time = k.time ∧ poses.lookup k.pose = some p.pose) ks t.keyframes) ∧
      ∀ a' : Animation, a'.name = a.name → a'.keyframes.Perm a.keyframes → a'.track poses = .ok t) ∧
    (¬ (a.keyframes.map (·.time)).Nodup →
      ∃ k, IsFirstRepeat a.keyframes k ∧ a.track poses = .error (.duplicateTime a.name k.time k.span.location)) ∧
    ((a.keyframes.map (·.time)).Nodup → (∃ k ∈ a.keyframes, k.pose ∉ poses.map Prod.fst) →
      ∃ k, IsFirstUnknown poses a.keyframes k ∧
        a.track poses = .error (.unknownName .pose k.pose k.span.location)) := by
  refine ⟨exists_track_iff htime, fun t ht => ⟨?_, fun a' hname hperm => ?_⟩, track_of_not_nodup htime,
    track_of_unknown htime⟩
  · exact inOrder_of_track (fun k hk => (htime k hk).isTime.isNumber) ht
  · rw [track_eq_of_perm htime ((exists_track_iff htime).mp ⟨t, ht⟩).1 hname hperm, ht]

/-- Two times that occur twice each, the lesser one around the other, and no pose that is known. -/
def nested : Animation :=
  ⟨"a", [⟨1.0, "p", ⟨0, 1, 1, 1⟩⟩, ⟨2.0, "q", ⟨5, 6, 1, 6⟩⟩, ⟨2.0, "p", ⟨10, 11, 2, 1⟩⟩, ⟨1.0, "q", ⟨15, 16, 2, 6⟩⟩],
    ⟨0, 0, 1, 1⟩⟩

theorem track_nested : (∀ k ∈ nested.keyframes, IsMagnitude k.time) ∧
    nested.track [] = .error (.duplicateTime "a" 1.0 ⟨2, 6⟩) := by
  have htime : ∀ k ∈ nested.keyframes, IsMagnitude k.time := by decide +kernel
  obtain ⟨k, hk, htrack⟩ := (@track_outcome [] nested htime).2.2.1 (by decide +kernel)
  have hmem : k ∈ nested.keyframes := hk.mem
  simp only [nested, List.mem_cons, List.not_mem_nil, or_false] at hmem
  rcases hmem with rfl | rfl | rfl | rfl
  · exact absurd hk.second (by decide +kernel)
  · exact absurd hk.second (by decide +kernel)
  · exact absurd (hk.least 1.0 (by decide +kernel)) (by decide +kernel)
  · exact ⟨htime, htrack⟩

end PoseLang

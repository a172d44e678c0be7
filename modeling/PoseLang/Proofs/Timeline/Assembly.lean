import Mathlib.Data.List.Infix
import PoseLang.Proofs.Timeline.Order

/-!
# Tracks end to end

`assemble` goes through a play sequence with two things in hand: the keyframes that were played so far and
the time where they stop. Here the timeline is said without them, of the tracks that the entries name: each
track is a segment that starts at the total duration of the tracks before it (`endToEnd`), and the timeline
has the keyframes of all segments (`laidOut`).

What is proved:

* playing one more entry adds the segment of its track (`play_cons_of_names`), so after some entries just
  their tracks are laid out (`play_append_of_names`);
* the first entry that is unknown or for which there is no room stops it (`play_cons_of_refused`);
* a timeline stops where its last keyframe stands, also if tracks without keyframes come after it
  (`duration_laidOut`): total durations never are zero with a sign, and nothing else is lost in a sum with 0;
* `assemble` has just these outcomes (`assemble_endToEnd`).
-/

namespace PoseLang

/-! ### Totals -/

/-- Where tracks stop that are played one after the other from 0 on. -/
def totalDuration (ts : List Track) : Float := ts.foldl (fun start t => start + t.duration) 0

/-- How many keyframes the tracks have together. -/
def totalKeyframes (ts : List Track) : ℕ := (ts.map (·.keyframes.length)).sum

@[simp]
theorem totalDuration_concat (ts : List Track) (t : Track) :
    totalDuration (ts ++ [t]) = totalDuration ts + t.duration := by
  simp [totalDuration]

@[simp]
theorem totalKeyframes_nil : totalKeyframes [] = 0 := rfl

@[simp]
theorem totalKeyframes_append (ts us : List Track) :
    totalKeyframes (ts ++ us) = totalKeyframes ts + totalKeyframes us := by
  simp [totalKeyframes]

@[simp]
theorem totalKeyframes_cons (t : Track) (ts : List Track) :
    totalKeyframes (t :: ts) = t.keyframes.length + totalKeyframes ts := by
  simp [totalKeyframes]

theorem totalDuration_ne_neg_zero (ts : List Track) : totalDuration ts ≠ -0 := by
  induction ts using List.reverseRecOn with
  | nil => exact isTime_zero.ne_neg_zero
  | append_singleton ts t ih =>
    rw [totalDuration_concat]
    exact add_ne_neg_zero ih t.duration

/-! ### Segments -/

/-- Tracks end to end: each starts where those before it stop. -/
def endToEnd (ts : List Track) : List Segment := ts.zipIdx.map fun (t, i) => ⟨totalDuration (ts.take i), t⟩

/-- The keyframes of tracks end to end. -/
def laidOut (ts : List Track) : List PlayedKeyframe :=
  (endToEnd ts).flatMap fun s => s.track.keyframes.map fun k => ⟨s.start + k.time, s.track.name, k.pose⟩

theorem endToEnd_concat (ts : List Track) (t : Track) :
    endToEnd (ts ++ [t]) = endToEnd ts ++ [⟨totalDuration ts, t⟩] := by
  unfold endToEnd
  rw [List.zipIdx_append, List.map_append]
  congr 1
  · refine List.map_congr_left fun (u, i) hu => ?_
    have htake : (ts ++ [t]).take i = ts.take i := List.take_append_of_le_length (List.snd_lt_of_mem_zipIdx hu).le
    simp only [htake]
  · simp

@[simp]
theorem laidOut_concat (ts : List Track) (t : Track) :
    laidOut (ts ++ [t]) = laidOut ts ++ t.playedFrom (totalDuration ts) := by
  simp [laidOut, endToEnd_concat, Track.playedFrom]

theorem length_laidOut (ts : List Track) : (laidOut ts).length = totalKeyframes ts := by
  induction ts using List.reverseRecOn with
  | nil => rfl
  | append_singleton ts t ih => simp [Track.playedFrom, ih]

/-- What is laid out first stays in front. -/
theorem laidOut_mono {ts us : List Track} (h : ts <+: us) : laidOut ts <+: laidOut us := by
  obtain ⟨rest, rfl⟩ := h
  induction rest using List.reverseRecOn with
  | nil => rw [List.append_nil]
  | append_singleton rest t ih =>
    rw [← List.append_assoc, laidOut_concat]
    exact ih.trans (List.prefix_append _ _)

/-- **A timeline lasts as long as its tracks.** -/
theorem duration_laidOut (ts : List Track) : (Timeline.mk (laidOut ts)).duration = totalDuration ts := by
  induction ts using List.reverseRecOn with
  | nil => rfl
  | append_singleton ts t ih =>
    rw [laidOut_concat, totalDuration_concat, ← ih]
    unfold Timeline.duration at ih ⊢
    unfold Track.duration Track.playedFrom
    rw [List.getLast?_append, List.getLast?_map]
    cases t.keyframes.getLast? with
    | some k => rw [ih]; rfl
    | none =>
      -- nothing is added, and the stop does not move
      have hne := totalDuration_ne_neg_zero ts
      rw [← ih] at hne
      exact (float_add_zero hne).symm

/-! ### What entries name -/

/-- An entry names the track of the animation that goes by its name. -/
def PlayEntry.Names (poses : List (String × Posture)) (animations : List (String × Animation)) (e : PlayEntry)
    (t : Track) : Prop :=
  ∃ a, (e.animation, a) ∈ animations ∧ a.track poses = .ok t

/-- Entries that can be played: they name tracks, and there is room for all keyframes of these. -/
structure Playable (limits : InputLimits) (poses : List (String × Posture)) (animations : List (String × Animation))
    (es : List PlayEntry) (ts : List Track) : Prop where
  names : List.Forall₂ (PlayEntry.Names poses animations) es ts
  room : totalKeyframes ts ≤ limits.timelineKeyframes

/-- Why an entry cannot be played after some tracks. -/
inductive Refused (limits : InputLimits) (poses : List (String × Posture)) (animations : List (String × Animation))
    (ts : List Track) (e : PlayEntry) : CompileError → Prop
  | unknown : e.animation ∉ animations.map Prod.fst →
      Refused limits poses animations ts e (.unknownName .animation e.animation e.span.location)
  | full {t : Track} : e.Names poses animations t → limits.timelineKeyframes < totalKeyframes (ts ++ [t]) →
      Refused limits poses animations ts e (.tooLarge .timelineKeyframes limits.timelineKeyframes)

section Assembly

variable {limits : InputLimits} {poses : List (String × Posture)} {animations : List (String × Animation)}

/-- If all animations have tracks, entries can be played up to the first that is refused. -/
theorem playable_or_refused (hall : ∀ a ∈ animations, ∃ t, a.2.track poses = .ok t) (es : List PlayEntry) :
    (∃ ts, Playable limits poses animations es ts) ∨
      ∃ before e after ts err, es = before ++ e :: after ∧ Playable limits poses animations before ts ∧
        Refused limits poses animations ts e err := by
  induction es using List.reverseRecOn with
  | nil => exact .inl ⟨[], .nil, Nat.zero_le _⟩
  | append_singleton es e ih =>
    rcases ih with ⟨ts, hes⟩ | ⟨before, e', after, ts, err, rfl, hbefore, hrefused⟩
    · by_cases hname : e.animation ∈ animations.map Prod.fst
      · obtain ⟨⟨key, a⟩, ha, hkey⟩ := List.mem_map.mp hname
        obtain rfl : key = e.animation := hkey
        obtain ⟨t, ht⟩ := hall _ ha
        by_cases hroom : totalKeyframes (ts ++ [t]) ≤ limits.timelineKeyframes
        · exact .inl ⟨ts ++ [t], List.rel_append hes.names (.cons ⟨a, ha, ht⟩ .nil), hroom⟩
        · exact .inr ⟨es, e, [], ts, _, rfl, hes, .full ⟨a, ha, ht⟩ (Nat.lt_of_not_le hroom)⟩
      · exact .inr ⟨es, e, [], ts, _, rfl, hes, .unknown hname⟩
    · exact .inr ⟨before, e', after ++ [e], ts, err, by simp, hbefore, hrefused⟩

section Tracks

variable {tracks : List Track} (hkey : ∀ a ∈ animations, a.1 = a.2.name)
  (htracks : animations.mapM (fun (_, a) => a.track poses) = .ok tracks)

include hkey htracks

theorem map_name_tracks : tracks.map (·.name) = animations.map Prod.fst := by
  have hnames : animations.map (·.2.name) = tracks.map (·.name) :=
    map_eq_map_of_forall₂ ((mapM_eq_ok_iff.mp htracks).imp fun a t ht => (track_eq_ok_iff.mp ht).1.symm)
  rw [← hnames]
  exact List.map_congr_left fun a ha => (hkey a ha).symm

theorem find?_eq_none_iff_notMem (name : String) :
    tracks.reverse.find? (·.name = name) = none ↔ name ∉ animations.map Prod.fst := by
  rw [← map_name_tracks hkey htracks]
  simp

variable (hnodup : (animations.map Prod.fst).Nodup)

include hnodup

/-- Looking up an entry's name finds the track that it names. -/
theorem find?_eq_some_iff_names {e : PlayEntry} {t : Track} :
    tracks.reverse.find? (·.name = e.animation) = some t ↔ e.Names poses animations t := by
  constructor
  · exact exists_animation_of_find? hkey htracks
  · rintro ⟨a, ha, ht⟩
    cases hfound : tracks.reverse.find? (·.name = e.animation) with
    | none => exact absurd (List.mem_map_of_mem ha) ((find?_eq_none_iff_notMem hkey htracks _).mp hfound)
    | some t' =>
      obtain ⟨a', ha', ht'⟩ := exists_animation_of_find? hkey htracks hfound
      obtain rfl := eq_of_mem_keys hnodup ha ha'
      cases ht.symm.trans ht'
      rfl

/-! ### Playing -/

/-- One more entry lays out one more track. -/
theorem play_cons_of_names {ts : List Track} {e : PlayEntry} {t : Track} (h : e.Names poses animations t)
    (hroom : totalKeyframes (ts ++ [t]) ≤ limits.timelineKeyframes) (es : List PlayEntry) :
    play limits tracks.reverse (laidOut ts).toArray (totalDuration ts) (e :: es) =
      play limits tracks.reverse (laidOut (ts ++ [t])).toArray (totalDuration (ts ++ [t])) es := by
  rw [play, (find?_eq_some_iff_names hkey htracks hnodup).mpr h]
  dsimp only
  rw [if_neg (by simpa [length_laidOut] using hroom)]
  simp

theorem play_cons_of_refused {ts : List Track} {e : PlayEntry} {err : CompileError}
    (h : Refused limits poses animations ts e err) (es : List PlayEntry) :
    play limits tracks.reverse (laidOut ts).toArray (totalDuration ts) (e :: es) = .error err := by
  cases h with
  | unknown hname => rw [play, (find?_eq_none_iff_notMem hkey htracks _).mpr hname]
  | @full t hnames hfull =>
    rw [play, (find?_eq_some_iff_names hkey htracks hnodup).mpr hnames]
    dsimp only
    rw [if_pos (by simpa [length_laidOut] using hfull)]

/-- Entries lay out the tracks that they name. -/
theorem play_append_of_names {es : List PlayEntry} {us : List Track}
    (h : List.Forall₂ (PlayEntry.Names poses animations) es us) (ts : List Track)
    (hroom : totalKeyframes (ts ++ us) ≤ limits.timelineKeyframes) (rest : List PlayEntry) :
    play limits tracks.reverse (laidOut ts).toArray (totalDuration ts) (es ++ rest) =
      play limits tracks.reverse (laidOut (ts ++ us)).toArray (totalDuration (ts ++ us)) rest := by
  induction h generalizing ts with
  | nil => rw [List.nil_append, List.append_nil]
  | @cons e t es us he _ ih =>
    have hfirst : totalKeyframes (ts ++ [t]) ≤ limits.timelineKeyframes := by
      simp at hroom ⊢
      omega
    rw [List.append_cons ts t us] at hroom ⊢
    rw [List.cons_append, play_cons_of_names hkey htracks hnodup he hfirst, ih _ hroom]

end Tracks

/-- An entry whose track has no keyframes changes nothing, not even what goes wrong after it. -/
theorem play_append_cons_of_empty {tracks : List Track} {e : PlayEntry} {t : Track}
    (htrack : tracks.find? (·.name = e.animation) = some t) (hempty : t.keyframes = [])
    (before after : List PlayEntry) {done : Array PlayedKeyframe} {start : Float} (hstart : start ≠ -0)
    (hroom : done.size ≤ limits.timelineKeyframes) :
    play limits tracks done start (before ++ e :: after) = play limits tracks done start (before ++ after) := by
  induction before generalizing done start with
  | nil =>
    have hduration : t.duration = 0 := by simp [Track.duration, hempty]
    have hplayed : t.playedFrom start = [] := by simp [Track.playedFrom, hempty]
    rw [List.nil_append, List.nil_append, play, htrack]
    simp [hempty, hplayed, hduration, hroom, float_add_zero hstart]
  | cons b before ih =>
    simp only [List.cons_append, play]
    cases tracks.find? (·.name = b.animation) with
    | none => rfl
    | some u =>
      dsimp only
      split
      · rfl
      next hsize =>
        -- the entry was checked, so there still is room for nothing
        refine ih (add_ne_neg_zero hstart u.duration) ?_
        rw [size_append_playedFrom]
        exact Nat.le_of_not_lt hsize

/-! ### Outcomes -/

theorem assemble_of_mapM {tracks : List Track}
    (htracks : animations.mapM (fun (_, a) => a.track poses) = .ok tracks) (main : List PlayEntry) :
    assemble limits poses animations main = play limits tracks.reverse #[] 0 main := by
  rw [assemble, htracks]
  rfl

section Keyed

variable (hkey : ∀ a ∈ animations, a.1 = a.2.name) (hnodup : (animations.map Prod.fst).Nodup)

include hkey hnodup

theorem assemble_of_playable (hall : ∀ a ∈ animations, ∃ t, a.2.track poses = .ok t) {main : List PlayEntry}
    {ts : List Track} (h : Playable limits poses animations main ts) :
    assemble limits poses animations main = .ok ⟨laidOut ts⟩ := by
  obtain ⟨tracks, htracks⟩ := exists_mapM_eq_ok_iff.mpr hall
  have hplay := play_append_of_names hkey htracks hnodup h.names [] h.room []
  rw [List.append_nil, List.nil_append, play] at hplay
  rw [assemble_of_mapM htracks]
  exact hplay

theorem assemble_of_refused (hall : ∀ a ∈ animations, ∃ t, a.2.track poses = .ok t) {before after : List PlayEntry}
    {e : PlayEntry} {ts : List Track} {err : CompileError} (h : Playable limits poses animations before ts)
    (hrefused : Refused limits poses animations ts e err) :
    assemble limits poses animations (before ++ e :: after) = .error err := by
  obtain ⟨tracks, htracks⟩ := exists_mapM_eq_ok_iff.mpr hall
  have hplay := play_append_of_names hkey htracks hnodup h.names [] h.room (e :: after)
  rw [List.nil_append, play_cons_of_refused hkey htracks hnodup hrefused] at hplay
  rw [assemble_of_mapM htracks]
  exact hplay

theorem assemble_eq_ok_iff {main : List PlayEntry} {t : Timeline} :
    assemble limits poses animations main = .ok t ↔ (∀ a ∈ animations, ∃ u, a.2.track poses = .ok u) ∧
      ∃ ts, Playable limits poses animations main ts ∧ t.keyframes = laidOut ts := by
  constructor
  · intro h
    obtain ⟨tracks, htracks, -⟩ := bind_eq_ok_iff.mp h
    have hall := exists_mapM_eq_ok_iff.mp ⟨tracks, htracks⟩
    rcases playable_or_refused hall main with ⟨ts, hts⟩ | ⟨before, e, after, ts, err, rfl, hbefore, hrefused⟩
    · rw [assemble_of_playable hkey hnodup hall hts] at h
      cases h
      exact ⟨hall, ts, hts, rfl⟩
    · rw [assemble_of_refused hkey hnodup hall hbefore hrefused] at h
      cases h
  · rintro ⟨hall, ts, hts, ht⟩
    rw [assemble_of_playable hkey hnodup hall hts, ← ht]

theorem assemble_eq_error_iff {main : List PlayEntry} {err : CompileError} :
    assemble limits poses animations main = .error err ↔
      (∃ before a after, animations = before ++ a :: after ∧ (∀ b ∈ before, ∃ u, b.2.track poses = .ok u) ∧
        a.2.track poses = .error err) ∨
      (∀ a ∈ animations, ∃ u, a.2.track poses = .ok u) ∧
        ∃ before e after ts, main = before ++ e :: after ∧ Playable limits poses animations before ts ∧
          Refused limits poses animations ts e err := by
  constructor
  · intro h
    rcases bind_eq_error_iff.mp h with hfirst | ⟨tracks, htracks, -⟩
    · exact .inl (mapM_eq_error_iff.mp hfirst)
    · have hall := exists_mapM_eq_ok_iff.mp ⟨tracks, htracks⟩
      refine .inr ⟨hall, ?_⟩
      rcases playable_or_refused hall main with ⟨ts, hts⟩ | ⟨before, e, after, ts, err', rfl, hbefore, hrefused⟩
      · rw [assemble_of_playable hkey hnodup hall hts] at h
        cases h
      · rw [assemble_of_refused hkey hnodup hall hbefore hrefused] at h
        cases h
        exact ⟨before, e, after, ts, rfl, hbefore, hrefused⟩
  · rintro (hfirst | ⟨hall, before, e, after, ts, rfl, hbefore, hrefused⟩)
    · exact bind_eq_error_iff.mpr (.inl (mapM_eq_error_iff.mpr hfirst))
    · exact assemble_of_refused hkey hnodup hall hbefore hrefused

/-- An entry whose animation has no keyframes may as well be left out. -/
theorem assemble_append_cons_of_empty {e : PlayEntry} {a : Animation} (ha : (e.animation, a) ∈ animations)
    (hempty : a.keyframes = []) (before after : List PlayEntry) :
    assemble limits poses animations (before ++ e :: after) = assemble limits poses animations (before ++ after) := by
  cases htracks : animations.mapM (fun (_, a) => a.track poses) with
  | error err =>
    rw [assemble, assemble, htracks]
    rfl
  | ok tracks =>
    obtain ⟨t, ht⟩ := exists_mapM_eq_ok_iff.mp ⟨tracks, htracks⟩ _ ha
    have hlength : t.keyframes.length = 0 := by
      rw [← (track_eq_ok_iff.mp ht).2.2.length_eq, (sortKeyframes_perm _).length_eq, hempty, List.length_nil]
    have htrack := (find?_eq_some_iff_names hkey htracks hnodup).mpr ⟨a, ha, ht⟩
    rw [assemble_of_mapM htracks, assemble_of_mapM htracks]
    exact play_append_cons_of_empty htrack (List.length_eq_zero_iff.mp hlength) before after
      isTime_zero.ne_neg_zero (Nat.zero_le _)

end Keyed

/-- Entries name one track each. -/
theorem eq_of_names (hnodup : (animations.map Prod.fst).Nodup) {es : List PlayEntry} {ts us : List Track}
    (ht : List.Forall₂ (PlayEntry.Names poses animations) es ts)
    (hu : List.Forall₂ (PlayEntry.Names poses animations) es us) : ts = us := by
  refine List.right_unique_forall₂' (fun e t u => ?_) ht hu
  rintro ⟨a, ha, hat⟩ ⟨b, hb, hbu⟩
  obtain rfl := eq_of_mem_keys hnodup ha hb
  cases hat.symm.trans hbu
  rfl

theorem Playable.take {es : List PlayEntry} {ts : List Track} (h : Playable limits poses animations es ts) (n : ℕ) :
    Playable limits poses animations (es.take n) (ts.take n) := by
  refine ⟨List.forall₂_take n h.names, ?_⟩
  have htotal := totalKeyframes_append (ts.take n) (ts.drop n)
  rw [List.take_append_drop] at htotal
  have hroom := h.room
  omega

/-- **A play sequence is laid end to end.** Let no two animations have one name.

* Nothing is played if some animation has no track, and the first such says why. Otherwise the first entry that is
  unknown, or whose keyframes are too many after those before it, says why.
* If nothing is wrong, the keyframes are those of the tracks that the entries name, end to end.
* So there are as many as the tracks have, the last one stands at the total duration, and what the first entries
  play comes first.
* An entry whose animation has no keyframes may as well be left out. -/
theorem assemble_endToEnd (limits : InputLimits) (main : List PlayEntry) (hkey : ∀ a ∈ animations, a.1 = a.2.name)
    (hnodup : (animations.map Prod.fst).Nodup) :
    (∀ err, assemble limits poses animations main = .error err ↔
      (∃ before a after, animations = before ++ a :: after ∧ (∀ b ∈ before, ∃ u, b.2.track poses = .ok u) ∧
        a.2.track poses = .error err) ∨
      (∀ a ∈ animations, ∃ u, a.2.track poses = .ok u) ∧
        ∃ before e after ts, main = before ++ e :: after ∧ Playable limits poses animations before ts ∧
          Refused limits poses animations ts e err) ∧
    (∀ t, assemble limits poses animations main = .ok t ↔
      (∀ a ∈ animations, ∃ u, a.2.track poses = .ok u) ∧
        ∃ ts, Playable limits poses animations main ts ∧ t.keyframes = laidOut ts) ∧
    (∀ t, assemble limits poses animations main = .ok t →
      (∀ ts, List.Forall₂ (PlayEntry.Names poses animations) main ts →
        t.keyframes.length = totalKeyframes ts ∧ t.duration = totalDuration ts) ∧
      ∀ main', main' <+: main →
        ∃ t', assemble limits poses animations main' = .ok t' ∧ t'.keyframes <+: t.keyframes) ∧
    ∀ before e after a, main = before ++ e :: after → (e.animation, a) ∈ animations → a.keyframes = [] →
      assemble limits poses animations main = assemble limits poses animations (before ++ after) := by
  refine ⟨fun err => assemble_eq_error_iff hkey hnodup, fun t => assemble_eq_ok_iff hkey hnodup, fun t ht => ?_, ?_⟩
  · obtain ⟨hall, ts, hts, hkeyframes⟩ := (assemble_eq_ok_iff hkey hnodup).mp ht
    obtain rfl : t = ⟨laidOut ts⟩ := congrArg Timeline.mk hkeyframes
    constructor
    · intro us hus
      rw [eq_of_names hnodup hus hts.names]
      exact ⟨length_laidOut ts, duration_laidOut ts⟩
    · intro main' hmain'
      rw [List.prefix_iff_eq_take.mp hmain']
      exact ⟨_, assemble_of_playable hkey hnodup hall (hts.take _), laidOut_mono (List.take_prefix _ _)⟩
  · rintro before e after a rfl ha hempty
    exact assemble_append_cons_of_empty hkey hnodup ha hempty before after

end Assembly

/-! ### A round of waves -/

/-- A wave of two seconds. -/
def wave : Animation := ⟨"wave", [⟨0, "p", ⟨29, 30, 1, 30⟩⟩, ⟨2.0, "p", ⟨35, 36, 1, 36⟩⟩], ⟨12, 22, 1, 13⟩⟩

/-- An animation without keyframes. -/
def idle : Animation := ⟨"idle", [], ⟨43, 53, 1, 44⟩⟩

/-- Both animations, by their names. -/
def waves : List (String × Animation) := [("wave", wave), ("idle", idle)]

/-- Wave, do nothing, and wave again. -/
def waving : List PlayEntry := [⟨"wave", ⟨70, 74, 1, 71⟩⟩, ⟨"idle", ⟨76, 80, 1, 77⟩⟩, ⟨"wave", ⟨82, 86, 1, 83⟩⟩]

/-- The track of the wave. -/
def waveTrack : Track := ⟨"wave", [⟨0, .rest "p"⟩, ⟨2.0, .rest "p"⟩]⟩

theorem track_wave : wave.track [("p", .rest "p")] = .ok waveTrack :=
  track_of_pairwise (by decide +kernel) (by decide +kernel) rfl

theorem track_idle (poses : List (String × Posture)) : idle.track poses = .ok ⟨"idle", []⟩ :=
  track_of_pairwise .nil rfl rfl

theorem names_wave (span : Span) : PlayEntry.Names [("p", .rest "p")] waves ⟨"wave", span⟩ waveTrack :=
  ⟨wave, by simp [waves], track_wave⟩

theorem names_idle (span : Span) : PlayEntry.Names [("p", .rest "p")] waves ⟨"idle", span⟩ ⟨"idle", []⟩ :=
  ⟨idle, by simp [waves], track_idle _⟩

/-- It takes four seconds, if there is room for four keyframes. -/
theorem assemble_waving :
    (∀ a ∈ waves, a.1 = a.2.name) ∧ (waves.map Prod.fst).Nodup ∧
      assemble {} [("p", .rest "p")] waves waving = .ok ⟨[⟨0, "wave", .rest "p"⟩, ⟨2.0, "wave", .rest "p"⟩,
        ⟨2.0, "wave", .rest "p"⟩, ⟨4.0, "wave", .rest "p"⟩]⟩ ∧
      assemble { timelineKeyframes := 3 } [("p", .rest "p")] waves waving =
        .error (.tooLarge .timelineKeyframes 3) := by
  have hkey : ∀ a ∈ waves, a.1 = a.2.name := by simp [waves, wave, idle]
  have hnodup : (waves.map Prod.fst).Nodup := by simp [waves]
  have hall : ∀ a ∈ waves, ∃ t, a.2.track [("p", .rest "p")] = .ok t := by simp [waves, track_wave, track_idle]
  refine ⟨hkey, hnodup, ?_, ?_⟩
  · have hnames : List.Forall₂ (PlayEntry.Names [("p", .rest "p")] waves) waving [waveTrack, ⟨"idle", []⟩, waveTrack] :=
      .cons (names_wave _) (.cons (names_idle _) (.cons (names_wave _) .nil))
    refine ((assemble_endToEnd _ _ hkey hnodup).2.1 _).mpr ⟨hall, _, ⟨hnames, by decide⟩, ?_⟩
    decide +kernel
  · have hnames : List.Forall₂ (PlayEntry.Names [("p", .rest "p")] waves) (waving.take 2) [waveTrack, ⟨"idle", []⟩] :=
      .cons (names_wave _) (.cons (names_idle _) .nil)
    refine ((assemble_endToEnd _ _ hkey hnodup).1 _).mpr (.inr ⟨hall, _, _, [], _, rfl, ⟨hnames, by decide⟩, ?_⟩)
    exact .full (names_wave _) (by decide)

end PoseLang

import Mathlib.Algebra.Order.Ring.Nat
import Mathlib.Order.Interval.Finset.Fin
import Mathlib.Order.Lattice.Nat
import PoseLang.Motion.Frames

/-!
# Frames in closed form

A keyframe asks for the frame nearest to its time, its nominal frame. Where keyframes crowd, each frame is
pushed to the one after its predecessor, and that may push many more until the nominal frames catch up.
`Timeline.pushed` says at once where this ends: of the keyframes up to the given one, each demands its
nominal frame and one more for every keyframe after it, and the greatest demand counts.

What is proved:

* a time takes its nominal frame, or the first free one if that is later (`planFrom_cons`), and that is the
  greatest demand (`Timeline.max_firstFree`);
* so, by induction on the keyframes that fit, a plan gives each keyframe the greatest demand, or ends at the
  first keyframe that does not fit (`Timeline.frames_of_fits`, `Timeline.frames_of_misfits`);
* so there is one frame for each keyframe, frames increase, and all have a number (`Timeline.length_frames`,
  `Timeline.pairwise_frames`, `Timeline.frames_lt`).
-/

namespace PoseLang

/-! ### One time -/

theorem nominalFrame?_eq_some_iff {rate time : Float} {m : Nat} :
    nominalFrame? rate time = some m ↔
      ∃ n : Int, nearestInteger? (time * rate) = some n ∧ n ≤ lastFrame ∧ n.toNat = m := by
  unfold nominalFrame?
  cases nearestInteger? (time * rate) with
  | none => simp
  | some n => simp

theorem nominalFrame?_le {rate time : Float} {m : Nat} (h : nominalFrame? rate time = some m) : m ≤ lastFrame := by
  obtain ⟨n, -, hn, rfl⟩ := nominalFrame?_eq_some_iff.mp h
  omega

/-- The frame after the latest one. -/
def firstFree (done : List Nat) : Nat := (done.head?.map (· + 1)).getD 0

theorem planFrom_late {rate time : Float} (h : nominalFrame? rate time = none) (done : List Nat) (times : List Float) :
    planFrom rate done (time :: times) = .error (.lateFrame time rate) := by
  rw [planFrom, h]

/-- A time takes its nominal frame, or the first free one if that is later. -/
theorem planFrom_cons {rate time : Float} {m : Nat} (h : nominalFrame? rate time = some m) (done : List Nat)
    (times : List Float) :
    planFrom rate done (time :: times) =
      if max m (firstFree done) ≤ lastFrame then planFrom rate (max m (firstFree done) :: done) times
      else .error .noFrameLeft := by
  have hle := nominalFrame?_le h
  rw [planFrom, h]
  cases hhead : done.head? with
  | none => simp [firstFree, hhead, hle]
  | some previous =>
    simp only [firstFree, hhead, Option.map_some, Option.getD_some]
    by_cases hlt : previous < m
    · rw [if_pos hlt, Nat.max_eq_left hlt, if_pos hle]
    · rw [if_neg hlt, Nat.max_eq_right (by omega)]
      exact if_congr Iff.rfl rfl rfl

namespace Timeline

/-! ### Demands -/

variable (t : Timeline) (rate : Float)

/-- The integer nearest to the number of frames before a keyframe. -/
def nearest? (i : Fin t.keyframes.length) : Option Int := nearestInteger? ((t.keyframes.get i).time * rate)

/-- The nominal frame of a keyframe. A time before the start asks for frame 0. -/
def nominal (i : Fin t.keyframes.length) : Nat := ((t.nearest? rate i).getD 0).toNat

/-- The greatest demand of the keyframes up to a given one. -/
def pushed (i : Fin t.keyframes.length) : Nat :=
  (Finset.Iic i).sup fun j => t.nominal rate j + (i.val - j.val)

/-- The nearest integer exists and is not above the last frame. -/
def HasNominal (i : Fin t.keyframes.length) : Prop := ∃ n, t.nearest? rate i = some n ∧ n ≤ lastFrame

/-- There is a frame for a keyframe. -/
structure Fits (i : Fin t.keyframes.length) : Prop where
  hasNominal : t.HasNominal rate i
  pushed_le : t.pushed rate i ≤ lastFrame

/-- Why there is no frame for a keyframe. -/
inductive Misfits (i : Fin t.keyframes.length) : Overflow → Prop
  | late : ¬ t.HasNominal rate i → Misfits i (.lateFrame (t.keyframes.get i).time rate)
  | crowded : t.HasNominal rate i → lastFrame < t.pushed rate i → Misfits i .noFrameLeft

theorem le_pushed {i j : Fin t.keyframes.length} (h : j ≤ i) :
    t.nominal rate j + (i.val - j.val) ≤ t.pushed rate i :=
  Finset.le_sup (f := fun j => t.nominal rate j + (i.val - j.val)) (Finset.mem_Iic.mpr h)

theorem pushed_le_iff {i : Fin t.keyframes.length} {frame : Nat} :
    t.pushed rate i ≤ frame ↔ ∀ j ≤ i, t.nominal rate j + (i.val - j.val) ≤ frame := by
  simp only [pushed, Finset.sup_le_iff, Finset.mem_Iic]

theorem nominal_le_pushed (i : Fin t.keyframes.length) : t.nominal rate i ≤ t.pushed rate i := by
  simpa using t.le_pushed rate (le_refl i)

/-- The first keyframe gets its nominal frame. -/
theorem pushed_zero {i : Fin t.keyframes.length} (h : i.val = 0) : t.pushed rate i = t.nominal rate i := by
  refine le_antisymm ((t.pushed_le_iff rate).mpr fun j hj => ?_) (t.nominal_le_pushed rate i)
  have hji : j = i := Fin.ext (by omega)
  rw [hji, Nat.sub_self, Nat.add_zero]

theorem pushed_lt {i j : Fin t.keyframes.length} (h : j < i) : t.pushed rate j < t.pushed rate i := by
  have hpos := t.le_pushed rate h.le
  have hle : t.pushed rate j ≤ t.pushed rate i - 1 := by
    -- what `l` demands of `j` it demands of `i` too, and of `i` at least one frame more
    refine (t.pushed_le_iff rate).mpr fun l hl => ?_
    have hdemand := t.le_pushed rate (hl.trans h.le)
    omega
  omega

/-- Each other keyframe gets its nominal frame, or the one after its predecessor's if that is later. -/
theorem pushed_succ {i j : Fin t.keyframes.length} (h : i.val = j.val + 1) :
    t.pushed rate i = max (t.nominal rate i) (t.pushed rate j + 1) := by
  have hji : j < i := by omega
  refine le_antisymm ((t.pushed_le_iff rate).mpr fun l hl => ?_)
    (max_le (t.nominal_le_pushed rate i) (t.pushed_lt rate hji))
  rcases eq_or_lt_of_le hl with rfl | hl
  · omega
  · have hdemand := t.le_pushed rate (i := j) (j := l) (by omega)
    omega

/-- Nominal frames that increase by themselves push nothing. -/
theorem pushed_eq_nominal (h : StrictMono (t.nominal rate)) (i : Fin t.keyframes.length) :
    t.pushed rate i = t.nominal rate i := by
  obtain ⟨k, hk⟩ := i
  induction k with
  | zero => exact t.pushed_zero rate rfl
  | succ k ih =>
    have hlt : t.nominal rate ⟨k, by omega⟩ < t.nominal rate ⟨k + 1, hk⟩ := h (by simp)
    rw [t.pushed_succ rate (i := ⟨k + 1, hk⟩) (j := ⟨k, by omega⟩) rfl, ih]
    omega

/-! ### The plan -/

/-- The rest of the plan, if the keyframes before an index have their pushed frames. -/
def planAt (k : Nat) : Except Overflow (List Nat) :=
  planFrom rate ((List.ofFn (t.pushed rate)).take k).reverse ((t.keyframes.map (·.time)).drop k)

theorem planAt_length : t.planAt rate t.keyframes.length = .ok (List.ofFn (t.pushed rate)) := by
  unfold planAt
  rw [List.take_of_length_le (by simp), List.drop_eq_nil_of_le (by simp), planFrom, List.reverse_reverse]

theorem reverse_take_pushed (i : Fin t.keyframes.length) :
    ((List.ofFn (t.pushed rate)).take (i + 1)).reverse =
      t.pushed rate i :: ((List.ofFn (t.pushed rate)).take i).reverse := by
  rw [List.take_succ_eq_append_getElem (by simp), List.reverse_append]
  simp

theorem drop_times (i : Fin t.keyframes.length) :
    (t.keyframes.map (·.time)).drop i = (t.keyframes.get i).time :: (t.keyframes.map (·.time)).drop (i + 1) := by
  rw [List.drop_eq_getElem_cons (by simp)]
  simp

/-- The greatest demand is the nominal frame or the first free one. -/
theorem max_firstFree (i : Fin t.keyframes.length) :
    max (t.nominal rate i) (firstFree ((List.ofFn (t.pushed rate)).take i).reverse) = t.pushed rate i := by
  obtain ⟨k, hk⟩ := i
  cases k with
  | zero => simp [firstFree, t.pushed_zero rate]
  | succ k =>
    have hlast := t.reverse_take_pushed rate ⟨k, by omega⟩
    rw [hlast, t.pushed_succ rate (i := ⟨k + 1, hk⟩) (j := ⟨k, by omega⟩) rfl]
    rfl

theorem nominalFrame?_of_hasNominal {i : Fin t.keyframes.length} (h : t.HasNominal rate i) :
    nominalFrame? rate (t.keyframes.get i).time = some (t.nominal rate i) := by
  obtain ⟨n, hn, hle⟩ := h
  exact nominalFrame?_eq_some_iff.mpr ⟨n, hn, hle, by simp [nominal, hn]⟩

theorem nominalFrame?_of_not_hasNominal {i : Fin t.keyframes.length} (h : ¬ t.HasNominal rate i) :
    nominalFrame? rate (t.keyframes.get i).time = none := by
  refine Option.eq_none_iff_forall_ne_some.mpr fun m hm => h ?_
  obtain ⟨n, hn, hle, -⟩ := nominalFrame?_eq_some_iff.mp hm
  exact ⟨n, hn, hle⟩

theorem planAt_of_hasNominal {i : Fin t.keyframes.length} (h : t.HasNominal rate i) :
    t.planAt rate i = if t.pushed rate i ≤ lastFrame then t.planAt rate (i + 1) else .error .noFrameLeft := by
  unfold planAt
  rw [t.drop_times, planFrom_cons (t.nominalFrame?_of_hasNominal rate h), t.max_firstFree, t.reverse_take_pushed]

/-- A keyframe that fits gets its pushed frame. -/
theorem planAt_of_fits {i : Fin t.keyframes.length} (h : t.Fits rate i) : t.planAt rate i = t.planAt rate (i + 1) := by
  rw [t.planAt_of_hasNominal rate h.hasNominal, if_pos h.pushed_le]

/-- A keyframe that does not fit ends the plan. -/
theorem planAt_of_misfits {i : Fin t.keyframes.length} {cause : Overflow} (h : t.Misfits rate i cause) :
    t.planAt rate i = .error cause := by
  cases h with
  | late hlate =>
    unfold planAt
    rw [t.drop_times, planFrom_late (t.nominalFrame?_of_not_hasNominal rate hlate)]
  | crowded hnominal hlt => rw [t.planAt_of_hasNominal rate hnominal, if_neg (by omega)]

/-- As long as keyframes fit, the plan is the one with their pushed frames. -/
theorem planAt_zero {k : Nat} (hk : k ≤ t.keyframes.length)
    (h : ∀ i : Fin t.keyframes.length, i.val < k → t.Fits rate i) :
    t.planAt rate 0 = t.planAt rate k := by
  induction k with
  | zero => rfl
  | succ k ih =>
    rw [ih (by omega) fun i hi => h i (by omega)]
    exact t.planAt_of_fits rate (h ⟨k, hk⟩ (Nat.lt_succ_self k))

theorem frames_eq_planAt : t.frames rate = (t.planAt rate 0).mapError .overflow := by
  unfold frames planAt
  rw [List.take_zero, List.reverse_nil, List.drop_zero]
  cases planFrom rate [] (t.keyframes.map (·.time)) <;> rfl

/-- Either every keyframe fits, or there is a first one that does not. -/
theorem fits_or_first : (∀ i, t.Fits rate i) ∨ ∃ i cause, (∀ j < i, t.Fits rate j) ∧ t.Misfits rate i cause := by
  by_cases hall : ∀ i, t.Fits rate i
  · exact .inl hall
  · have hne : {i | ¬ t.Fits rate i}.Nonempty := not_forall.mp hall
    obtain ⟨i, hi, hfirst⟩ := wellFounded_lt.has_min _ hne
    have hbefore : ∀ j < i, t.Fits rate j := fun j hj => not_not.mp fun hmisfit => hfirst j hmisfit hj
    by_cases hnominal : t.HasNominal rate i
    · have hpushed : lastFrame < t.pushed rate i := Nat.lt_of_not_le fun hle => hi ⟨hnominal, hle⟩
      exact .inr ⟨i, _, hbefore, .crowded hnominal hpushed⟩
    · exact .inr ⟨i, _, hbefore, .late hnominal⟩

theorem frames_of_fits (h : ∀ i, t.Fits rate i) : t.frames rate = .ok (List.ofFn (t.pushed rate)) := by
  rw [frames_eq_planAt, t.planAt_zero rate le_rfl fun i _ => h i, planAt_length]
  rfl

theorem frames_of_misfits {i : Fin t.keyframes.length} {cause : Overflow} (hbefore : ∀ j < i, t.Fits rate j)
    (h : t.Misfits rate i cause) : t.frames rate = .error (.overflow cause) := by
  rw [frames_eq_planAt, t.planAt_zero rate i.isLt.le hbefore, t.planAt_of_misfits rate h]
  rfl

/-! ### What a plan has -/

variable {t rate} {frames : List Nat}

/-- There is a plan if and only if all keyframes fit, and then it has their pushed frames. -/
theorem frames_eq_ok_iff :
    t.frames rate = .ok frames ↔ (∀ i, t.Fits rate i) ∧ frames = List.ofFn (t.pushed rate) := by
  constructor
  · intro h
    rcases t.fits_or_first rate with hall | ⟨i, cause, hbefore, hcause⟩
    · rw [t.frames_of_fits rate hall] at h
      exact ⟨hall, (Except.ok.inj h).symm⟩
    · rw [t.frames_of_misfits rate hbefore hcause] at h
      cases h
  · rintro ⟨hall, rfl⟩
    exact t.frames_of_fits rate hall

/-- There is no plan if and only if there is a first keyframe that does not fit. -/
theorem frames_eq_error_iff {e : CompileError} :
    t.frames rate = .error e ↔
      ∃ i cause, (∀ j < i, t.Fits rate j) ∧ t.Misfits rate i cause ∧ e = .overflow cause := by
  constructor
  · intro h
    rcases t.fits_or_first rate with hall | ⟨i, cause, hbefore, hcause⟩
    · rw [t.frames_of_fits rate hall] at h
      cases h
    · rw [t.frames_of_misfits rate hbefore hcause] at h
      exact ⟨i, cause, hbefore, hcause, (Except.error.inj h).symm⟩
  · rintro ⟨i, cause, hbefore, hcause, rfl⟩
    exact t.frames_of_misfits rate hbefore hcause

/-- Every keyframe has a frame. -/
theorem length_frames (h : t.frames rate = .ok frames) : frames.length = t.keyframes.length := by
  obtain ⟨-, rfl⟩ := frames_eq_ok_iff.mp h
  exact List.length_ofFn

/-- Frames increase from keyframe to keyframe. -/
theorem pairwise_frames (h : t.frames rate = .ok frames) : frames.Pairwise (· < ·) := by
  obtain ⟨-, rfl⟩ := frames_eq_ok_iff.mp h
  exact List.pairwise_ofFn.mpr fun i j hij => t.pushed_lt rate hij

/-- Every frame has a number of 32 bits. -/
theorem frames_lt (h : t.frames rate = .ok frames) : ∀ frame ∈ frames, frame < UInt32.size := by
  obtain ⟨hall, rfl⟩ := frames_eq_ok_iff.mp h
  intro frame hframe
  obtain ⟨i, rfl⟩ := (List.mem_ofFn' _ _).mp hframe
  exact Nat.lt_of_le_of_lt (hall i).pushed_le (by decide)

theorem planFrom_of_frames (h : t.frames rate = .ok frames) :
    planFrom rate [] (t.keyframes.map (·.time)) = .ok frames := by
  unfold Timeline.frames at h
  split at h
  · cases h
    assumption
  · cases h

/-- **The plan in closed form.** There is a plan if and only if every keyframe has a nominal frame and the
greatest demand up to it is not above the last frame; then each keyframe has the greatest demand as its frame.
So there is one frame for each keyframe, the frames increase, none is before the nominal one, and all are the
nominal ones if those increase by themselves. If there is no plan, the first keyframe that does not fit is the
cause. -/
theorem frames_eq_pushed (t : Timeline) (rate : Float) :
    (∀ frames, t.frames rate = .ok frames ↔ (∀ i, t.Fits rate i) ∧ frames = List.ofFn (t.pushed rate)) ∧
    (∀ frames, t.frames rate = .ok frames →
      frames.length = t.keyframes.length ∧ frames.Pairwise (· < ·) ∧
      List.Forall₂ (· ≤ ·) (List.ofFn (t.nominal rate)) frames ∧
      (StrictMono (t.nominal rate) → frames = List.ofFn (t.nominal rate))) ∧
    (∀ e, t.frames rate = .error e ↔
      ∃ i cause, (∀ j < i, t.Fits rate j) ∧ t.Misfits rate i cause ∧ e = .overflow cause) := by
  refine ⟨fun frames => frames_eq_ok_iff, fun frames h => ?_, fun e => frames_eq_error_iff⟩
  refine ⟨length_frames h, pairwise_frames h, ?_⟩
  obtain ⟨-, rfl⟩ := frames_eq_ok_iff.mp h
  constructor
  · rw [List.ofFn_eq_map, List.ofFn_eq_map, List.forall₂_map_left_iff, List.forall₂_map_right_iff]
    exact List.forall₂_same.mpr fun i _ => t.nominal_le_pushed rate i
  · intro hincreasing
    exact congrArg List.ofFn (funext (t.pushed_eq_nominal rate hincreasing))

end Timeline

end PoseLang

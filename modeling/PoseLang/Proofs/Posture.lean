import PoseLang.Posture
import PoseLang.Proofs.Document.Checked

/-!
# What a pose says about an axis

A pose is a list of statements, and the last statement about an axis counts. `Pose.value` says so
directly: it is the number that the last statement on the bone gives to the axis, a reset giving zero,
and zero if there is no such statement. The number that a clause gives is its magnitude, cut at the
limit of the bone, with the sign of its direction.

The compiler gets there by other means: it checks each statement into a set of axes, where an axis that
is written twice is refused, and applies the statements one after the other to a body at rest.

What is proved:

* applying checked statements changes the bones as the statements say, and nothing else (`Posture.get_apply`,
  `Posture.get_foldl_apply`), so a posture has the numbers of its checked pose (`CheckedPose.get_posture`);
* a checked clause writes its axis and no other (`value?_of_check`), so a checked statement writes what
  its clauses say (`value?_of_statement_check`);
* so the posture of a checked pose has the values of the pose (`get_posture`).
-/

namespace PoseLang

/-! ### The meaning of a pose -/

/-- The number that a clause gives to an axis of a bone. -/
def Clause.value? (c : Clause) (b : Bone) (x : Axis) : Option Float :=
  match b.limit? c.action c.direction, c.action.axis? c.direction with
  | some limit, some (y, sign) => if y = x then some (sign.apply (c.cut limit)) else none
  | _, _ => none

/-- The number that a statement gives to an axis of its bone. -/
def Statement.value? (s : Statement) (x : Axis) : Option Float :=
  match s.deed with
  | .reset => some 0
  | .actions clauses => clauses.findSome? (·.value? s.bone x)

/-- The number that a pose gives to an axis: that of the last statement about it, and else zero. -/
def Pose.value (p : Pose) (b : Bone) (x : Axis) : Float :=
  (p.statements.reverse.findSome? fun s => if s.bone = b then s.value? x else none).getD 0

/-- The number that a checked statement gives to an axis of a bone. -/
def CheckedStatement.value? (s : CheckedStatement) (b : Bone) (x : Axis) : Option Float :=
  if s.bone = b then
    match s.change with
    | .reset => some 0
    | .write axes => (axes.get? x).map Update.value
  else none

/-- The number that a checked pose gives to an axis: that of the last statement about it, and else zero. -/
def CheckedPose.value (p : CheckedPose) (b : Bone) (x : Axis) : Float :=
  (p.statements.reverse.findSome? (·.value? b x)).getD 0

theorem Bone.index_surjective : Function.Surjective Bone.index := by
  have hindex : ∀ i, ∃ b ∈ Bone.all, b.index = i := by decide
  intro i
  obtain ⟨b, -, hb⟩ := hindex i
  exact ⟨b, hb⟩

namespace Transform

theorem eq_of_get {t t' : Transform} (h : ∀ x, t.get x = t'.get x) : t = t' := by
  obtain ⟨axes⟩ := t
  obtain ⟨axes'⟩ := t'
  exact congrArg mk (vector_ext Axis.index_surjective h)

theorem get_rest (x : Axis) : rest.get x = 0 := get_replicate 0 x.index

theorem get_set (t : Transform) (x y : Axis) (v : Float) :
    (t.set x v).get y = if x = y then v else t.get y :=
  get_set_vector (fun _ _ => Axis.index_inj) t.axes x y v

/-- A bone is at rest if and only if each axis equals zero. -/
theorem isRest_iff (t : Transform) : t.isRest = true ↔ ∀ x, (t.get x == 0) = true := by
  unfold isRest
  rw [Vector.all_eq_true]
  constructor
  · exact fun h x => h x.index.val x.index.isLt
  · intro h i hi
    obtain ⟨x, hx⟩ := Axis.index_surjective ⟨i, hi⟩
    have hzero : (t.axes.get x.index == 0) = true := h x
    rw [hx] at hzero
    exact hzero

end Transform

/-- Writing some of the axes of a set, one after the other. -/
theorem Transform.get_foldl_set (s : AxisSet) (x : Axis) (ys : List Axis) (t : Transform) :
    ((ys.filterMap fun y => (s.get? y).map (y, ·)).foldl (fun t (y, u) => t.set y u.value) t).get x =
      if x ∈ ys then ((s.get? x).map Update.value).getD (t.get x) else t.get x := by
  induction ys generalizing t with
  | nil => rfl
  | cons y ys ih =>
    cases hy : s.get? y with
    | none =>
      rw [List.filterMap_cons_none (by rw [hy]; rfl), ih]
      by_cases hxy : x = y
      · subst hxy
        simp [hy]
      · simp [hxy]
    | some u =>
      rw [List.filterMap_cons_some (by rw [hy]; rfl), List.foldl_cons, ih, get_set]
      by_cases hxy : x = y
      · subst hxy
        simp [hy]
      · simp [hxy, Ne.symm hxy]

/-- Writing the axes of a set moves those and no others. -/
theorem Transform.get_write (t : Transform) (s : AxisSet) (x : Axis) :
    (t.write s).get x = ((s.get? x).map Update.value).getD (t.get x) :=
  (get_foldl_set s x Axis.all t).trans (if_pos x.mem_all)

/-! ### Checked statements -/

/-- One clause: its axis was not written before, and gets the number of the clause. -/
theorem value?_of_check {pose : String} {b : Bone} {acc acc' : AxisSet × List Warning} {c : Clause}
    (h : c.check pose b acc = .ok acc') (x : Axis) :
    (acc'.1.get? x).map Update.value = ((acc.1.get? x).map Update.value).or (c.value? b x) := by
  obtain ⟨limit, axis, sign, hlimit, haxis, hinsert, -⟩ := clause_check_eq_ok_iff.mp h
  obtain ⟨hnew, hget⟩ := AxisSet.get?_of_insert? hinsert
  rw [hget x]
  simp only [Clause.value?, hlimit, haxis]
  by_cases hx : axis = x
  · subst hx
    simp [hnew, Update.value]
  · simp [hx]

/-- All clauses: each axis gets the number of the first clause on it, which is the only one. -/
theorem foldlM_check {pose : String} {b : Bone} {cs : List Clause} {acc acc' : AxisSet × List Warning}
    (h : cs.foldlM (Clause.check pose b) acc = .ok acc') (x : Axis) :
    (acc'.1.get? x).map Update.value =
      ((acc.1.get? x).map Update.value).or (cs.findSome? (·.value? b x)) := by
  induction cs generalizing acc with
  | nil =>
    cases h
    simp
  | cons c cs ih =>
    rw [List.foldlM_cons] at h
    obtain ⟨mid, hc, h⟩ := bind_eq_ok_iff.mp h
    rw [ih h, value?_of_check hc x, Option.or_assoc, List.findSome?_cons]
    cases c.value? b x <;> rfl

namespace Posture

theorem bone_rest (name : String) (b : Bone) : (rest name).bone b = .rest :=
  get_replicate Transform.rest b.index

theorem bone_setBone (p : Posture) (b c : Bone) (t : Transform) :
    (p.setBone b t).bone c = if b = c then t else p.bone c :=
  get_set_vector (fun _ _ => Bone.index_inj) p.bones b c t

/-- A posture is its name and the numbers of its bones. -/
theorem eq_of_get {q q' : Posture} (hname : q.name = q'.name) (h : ∀ b x, (q.bone b).get x = (q'.bone b).get x) :
    q = q' := by
  obtain ⟨name, bones⟩ := q
  obtain ⟨name', bones'⟩ := q'
  obtain rfl : name = name' := hname
  obtain rfl : bones = bones' := vector_ext Bone.index_surjective fun b => Transform.eq_of_get (h b)
  rfl

/-- One statement: it changes the axes of its bone that it is about, and nothing else. -/
theorem get_apply (q : Posture) (s : CheckedStatement) (b : Bone) (x : Axis) :
    ((q.apply s).bone b).get x = (s.value? b x).getD ((q.bone b).get x) := by
  unfold apply CheckedStatement.value?
  by_cases hb : s.bone = b
  · subst hb
    cases s.change with
    | reset => simp [bone_setBone, Transform.get_rest]
    | write axes => simp [bone_setBone, Transform.get_write]
  · cases s.change with
    | reset => simp [bone_setBone, hb]
    | write axes => simp [bone_setBone, hb]

/-- All statements: each axis has the number of the last statement about it. -/
theorem get_foldl_apply (ss : List CheckedStatement) (q : Posture) (b : Bone) (x : Axis) :
    ((ss.foldl apply q).bone b).get x =
      (ss.reverse.findSome? (·.value? b x)).getD ((q.bone b).get x) := by
  induction ss generalizing q with
  | nil => rfl
  | cons s ss ih =>
    rw [List.foldl_cons, ih, get_apply, List.reverse_cons, List.findSome?_append]
    cases ss.reverse.findSome? (·.value? b x) with
    | some v => rfl
    | none => simp

theorem name_foldl_apply (ss : List CheckedStatement) (q : Posture) : (ss.foldl apply q).name = q.name := by
  induction ss generalizing q with
  | nil => rfl
  | cons s ss ih =>
    rw [List.foldl_cons, ih]
    unfold apply
    split <;> rfl

end Posture

/-- The posture of a checked pose has its numbers. -/
theorem CheckedPose.get_posture (p : CheckedPose) (b : Bone) (x : Axis) :
    (p.posture.bone b).get x = p.value b x := by
  unfold posture value
  rw [Posture.get_foldl_apply, Posture.bone_rest, Transform.get_rest]

/-- A statement gives the same numbers before and after it is checked. -/
theorem value?_of_statement_check {key : String} {s : Statement} {checked : CheckedStatement × List Warning}
    (h : s.check key = .ok checked) (b : Bone) (x : Axis) :
    checked.1.value? b x = if s.bone = b then s.value? x else none := by
  unfold Statement.check at h
  unfold CheckedStatement.value? Statement.value?
  cases hdeed : s.deed with
  | reset =>
    rw [hdeed] at h
    cases h
    rfl
  | actions clauses =>
    rw [hdeed] at h
    obtain ⟨acc, hacc, h⟩ := bind_eq_ok_iff.mp h
    cases h
    have hvalue := foldlM_check hacc x
    rw [AxisSet.get?_empty, Option.map_none, Option.none_or] at hvalue
    by_cases hb : s.bone = b
    · simp [hb, hvalue]
    · simp [hb]

/-- **The posture of a checked pose has the values of the pose.** -/
theorem get_posture {key : String} {p : Pose} {checked : CheckedPose × List Warning}
    (h : p.check key = .ok checked) (b : Bone) (x : Axis) :
    (checked.1.posture.bone b).get x = p.value b x := by
  obtain ⟨statements, hstatements, h⟩ := bind_eq_ok_iff.mp h
  cases h
  rw [CheckedPose.get_posture]
  unfold CheckedPose.value Pose.value
  rw [← List.map_reverse, List.findSome?_map]
  refine congrArg (Option.getD · 0) (findSome?_eq_of_forall₂ ?_).symm
  exact List.forall₂_reverse_iff.mpr ((mapM_eq_ok_iff.mp hstatements).imp fun s r hr =>
    (value?_of_statement_check hr b x).symm)

end PoseLang

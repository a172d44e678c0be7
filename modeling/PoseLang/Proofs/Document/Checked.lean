import Mathlib.Data.List.Induction
import PoseLang.Document.Checked
import PoseLang.Proofs.Lists

/-!
# What checking makes of a document

A document is checked clause by clause. Each clause is taken into the axes of its statement, with the sign of
its direction and with its magnitude cut at the limit of the bone, and a magnitude that is cut leaves a warning.
Here the outcome is said without these loops: a statement may have the clauses that its bone allows
(`Bone.Allows`), the axes that it writes are those of its clauses (`AxisSet.Holds`), and the warnings are those
that the clauses of the document give, in order (`Document.warnings`).

What is proved:

* a clause is taken in if its motion is permitted and its axis is free (`clause_check_eq_ok_iff`), so the clauses
  of a statement are taken in if the bone allows them, each on its own axis (`foldlM_check_eq_ok_iff`);
* a statement, a pose and a document are checked if and only if all their clauses are, and the outcome has all
  that they say and no more (`statement_check_eq_ok_iff`, `pose_check_eq_ok_iff`, `check_clamps`).
-/

namespace PoseLang

/-! ### What clauses say -/

/-- The clauses of a statement; a reset has none. -/
def Statement.clauses (s : Statement) : List Clause :=
  match s.deed with
  | .actions clauses => clauses
  | .reset => []

namespace Clause

/-- The magnitude, cut at the limit. -/
def cut (limit : Float) (c : Clause) : Float := if limit < c.magnitude then limit else c.magnitude

/-- The axis that a clause drives. -/
def axis? (c : Clause) : Option Axis := (c.action.axis? c.direction).map Prod.fst

/-- Two clauses that drive one axis, in the same direction or not. -/
def Clashes (c c' : Clause) : Prop := ∃ x, c.axis? = some x ∧ c'.axis? = some x

/-- The clause gives an axis of the bone this update: the bone has a limit for the motion, the motion drives the
axis with this sign, and the magnitude is cut at the limit. -/
def Writes (c : Clause) (b : Bone) (x : Axis) (u : Update) : Prop :=
  ∃ limit, b.limit? c.action c.direction = some limit ∧ c.action.axis? c.direction = some (x, u.sign) ∧
    u.magnitude = c.cut limit

/-- The warning that a clause gives in a pose, if its magnitude exceeds the limit of the bone. -/
def warning? (pose : String) (b : Bone) (c : Clause) : Option Warning :=
  match b.limit? c.action c.direction with
  | some limit =>
    if limit < c.magnitude then some ⟨pose, b, c.action, c.direction, c.magnitude, limit, c.span.location⟩ else none
  | none => none

end Clause

/-- Clauses that one statement on the bone may have: each has a limit, and no two drive one axis. -/
@[mk_iff]
structure Bone.Allows (b : Bone) (cs : List Clause) : Prop where
  limited : ∀ c ∈ cs, (b.limit? c.action c.direction).isSome
  apart : cs.Pairwise fun c c' => ¬ c.Clashes c'

/-- The set has the updates of the clauses, and no others. -/
def AxisSet.Holds (s : AxisSet) (b : Bone) (cs : List Clause) : Prop :=
  ∀ x u, s.get? x = some u ↔ ∃ c ∈ cs, c.Writes b x u

/-- What a statement becomes. -/
inductive Statement.Becomes : Statement → CheckedStatement → Prop
  | reset {b : Bone} {span : Span} : Becomes ⟨b, .reset, span⟩ ⟨b, .reset⟩
  | write {b : Bone} {cs : List Clause} {span : Span} {axes : AxisSet} : b.Allows cs → axes.Holds b cs →
      Becomes ⟨b, .actions cs, span⟩ ⟨b, .write axes⟩

/-- What a pose becomes under its key: its statements, one by one. -/
structure Pose.Becomes (key : String) (p : Pose) (q : CheckedPose) : Prop where
  name : q.name = key
  statements : List.Forall₂ Statement.Becomes p.statements q.statements

/-- The warnings of a statement: one for each clause above its limit. -/
def Statement.warnings (pose : String) (s : Statement) : List Warning :=
  s.clauses.filterMap (Clause.warning? pose s.bone)

/-- The warnings of a pose, statement by statement. -/
def Pose.warnings (key : String) (p : Pose) : List Warning := p.statements.flatMap (Statement.warnings key)

/-- The warnings of a document, pose by pose. -/
def Document.warnings (D : Document) : List Warning := D.poses.flatMap fun (key, p) => p.warnings key

/-! ### Places of a vector -/

section Places

variable {α : Type} {n : Nat}

theorem get_set_vector {ι : Type} [DecidableEq ι] {place : ι → Fin n} (hplace : place.Injective)
    (v : Vector α n) (i j : ι) (a : α) :
    (v.set (place i) a).get (place j) = if i = j then a else v.get (place j) := by
  have hset : (v.set (place i) a).get (place j) = if (place i).val = (place j).val then a else v.get (place j) :=
    Vector.getElem_set (place i).isLt (place j).isLt
  rw [hset]
  exact if_congr (Fin.val_inj.trans hplace.eq_iff) rfl rfl

theorem get_replicate (a : α) (i : Fin n) : (Vector.replicate n a).get i = a :=
  Vector.getElem_replicate i.isLt

/-- Vectors that agree at every place are the same. -/
theorem vector_ext {ι : Type} {place : ι → Fin n} (hplace : place.Surjective) {v w : Vector α n}
    (h : ∀ i, v.get (place i) = w.get (place i)) : v = w := by
  refine Vector.ext fun k hk => ?_
  obtain ⟨i, hi⟩ := hplace ⟨k, hk⟩
  have hget := h i
  rw [hi] at hget
  exact hget

end Places

theorem Axis.index_surjective : Function.Surjective Axis.index := by
  have hindex : ∀ i, ∃ x ∈ Axis.all, x.index = i := by decide
  intro i
  obtain ⟨x, -, hx⟩ := hindex i
  exact ⟨x, hx⟩

namespace AxisSet

theorem get?_empty (x : Axis) : empty.get? x = none := get_replicate none x.index

/-- A set takes an axis that it has not, and keeps the others. -/
theorem get?_of_insert? {s s' : AxisSet} {x : Axis} {u : Update} (h : s.insert? x u = some s') :
    s.get? x = none ∧ ∀ y, s'.get? y = if x = y then some u else s.get? y := by
  unfold insert? at h
  split at h
  · cases h
  next hx =>
    cases h
    exact ⟨hx, fun y => get_set_vector (fun _ _ => Axis.index_inj) s.slots x y (some u)⟩

theorem insert?_eq_none_iff {s : AxisSet} {x : Axis} {u : Update} :
    s.insert? x u = none ↔ ∃ u', s.get? x = some u' := by
  unfold insert?
  cases s.get? x <;> simp

theorem eq_of_get? {s s' : AxisSet} (h : ∀ x, s.get? x = s'.get? x) : s = s' := by
  obtain ⟨slots⟩ := s
  obtain ⟨slots'⟩ := s'
  exact congrArg mk (vector_ext Axis.index_surjective h)

end AxisSet

/-! ### One clause -/

section

variable {pose : String} {b : Bone} {c : Clause} {acc acc' : AxisSet × List Warning} {e : CompileError}

/-- The limits are those of motions. -/
theorem exists_axis {limit : Float} (h : b.limit? c.action c.direction = some limit) :
    ∃ x sign, c.action.axis? c.direction = some (x, sign) := by
  have hsome : (c.action.axis? c.direction).isSome := Bone.axis?_of_limit? (by rw [h]; rfl)
  obtain ⟨⟨x, sign⟩, haxis⟩ := Option.isSome_iff_exists.mp hsome
  exact ⟨x, sign, haxis⟩

theorem clause_check_of_none (h : b.limit? c.action c.direction = none) :
    c.check pose b acc = .error (.unsupported b c.action c.direction c.span.location) := by
  simp [Clause.check, h]

/-- A clause with a limit is taken in, cut and with its warning, unless its axis was written before. -/
theorem clause_check_of_some {limit : Float} {x : Axis} {sign : Sign}
    (hlimit : b.limit? c.action c.direction = some limit) (haxis : c.action.axis? c.direction = some (x, sign)) :
    c.check pose b acc =
      match acc.1.insert? x ⟨sign, c.cut limit⟩ with
      | some axes => .ok (axes, acc.2 ++ (c.warning? pose b).toList)
      | none => .error (.conflict b x c.span.location) := by
  by_cases hover : limit < c.magnitude
  · cases hinsert : acc.1.insert? x ⟨sign, limit⟩ <;>
      simp [Clause.check, Clause.cut, Clause.warning?, hlimit, haxis, hover, hinsert]
  · cases hinsert : acc.1.insert? x ⟨sign, c.magnitude⟩ <;>
      simp [Clause.check, Clause.cut, Clause.warning?, hlimit, haxis, hover, hinsert]

theorem clause_check_eq_ok_iff : c.check pose b acc = .ok acc' ↔
    ∃ limit x sign, b.limit? c.action c.direction = some limit ∧ c.action.axis? c.direction = some (x, sign) ∧
      acc.1.insert? x ⟨sign, c.cut limit⟩ = some acc'.1 ∧ acc'.2 = acc.2 ++ (c.warning? pose b).toList := by
  obtain ⟨axes', ws'⟩ := acc'
  cases hlimit : b.limit? c.action c.direction with
  | none => simp [clause_check_of_none hlimit]
  | some limit =>
    obtain ⟨x, sign, haxis⟩ := exists_axis hlimit
    rw [clause_check_of_some hlimit haxis]
    cases hinsert : acc.1.insert? x ⟨sign, c.cut limit⟩ <;> simp [haxis, hinsert, eq_comm]

theorem clause_check_eq_error_iff : c.check pose b acc = .error e ↔
    (b.limit? c.action c.direction = none ∧ e = .unsupported b c.action c.direction c.span.location) ∨
    ∃ limit x sign, b.limit? c.action c.direction = some limit ∧ c.action.axis? c.direction = some (x, sign) ∧
      acc.1.insert? x ⟨sign, c.cut limit⟩ = none ∧ e = .conflict b x c.span.location := by
  cases hlimit : b.limit? c.action c.direction with
  | none => simp [clause_check_of_none hlimit, eq_comm]
  | some limit =>
    obtain ⟨x, sign, haxis⟩ := exists_axis hlimit
    rw [clause_check_of_some hlimit haxis]
    cases hinsert : acc.1.insert? x ⟨sign, c.cut limit⟩ <;> simp [haxis, hinsert, eq_comm]

end

/-! ### The clauses of a statement -/

section

variable {pose : String} {b : Bone} {c : Clause} {cs : List Clause} {s s' : AxisSet} {acc acc' : AxisSet × List Warning}

theorem Clause.writes_iff {limit : Float} {x y : Axis} {sign : Sign} {u : Update}
    (hlimit : b.limit? c.action c.direction = some limit) (haxis : c.action.axis? c.direction = some (x, sign)) :
    c.Writes b y u ↔ x = y ∧ u = ⟨sign, c.cut limit⟩ := by
  obtain ⟨sign', magnitude⟩ := u
  simp only [Clause.Writes, hlimit, haxis, Option.some.injEq, Prod.mk.injEq, Update.mk.injEq, exists_eq_left',
    and_assoc, eq_comm (a := sign)]

theorem Clause.axis?_of_writes {x : Axis} {u : Update} (h : c.Writes b x u) : c.axis? = some x := by
  obtain ⟨limit, -, haxis, -⟩ := h
  rw [Clause.axis?, haxis]
  rfl

/-- A clause with a limit writes the axis that it drives. -/
theorem Clause.exists_writes {x : Axis} (hlimit : (b.limit? c.action c.direction).isSome) (haxis : c.axis? = some x) :
    ∃ u, c.Writes b x u := by
  obtain ⟨limit, hlimit⟩ := Option.isSome_iff_exists.mp hlimit
  obtain ⟨y, sign, hmotion⟩ := exists_axis hlimit
  obtain rfl : y = x := by simpa [Clause.axis?, hmotion] using haxis
  exact ⟨⟨sign, c.cut limit⟩, limit, hlimit, hmotion, rfl⟩

theorem Bone.allows_nil (b : Bone) : b.Allows [] := ⟨nofun, .nil⟩

/-- One more clause is allowed if it has a limit and drives none of the axes before it. -/
theorem Bone.allows_concat_iff : b.Allows (cs ++ [c]) ↔
    b.Allows cs ∧ (b.limit? c.action c.direction).isSome ∧ ∀ c' ∈ cs, ¬ c'.Clashes c := by
  simp only [Bone.allows_iff, List.pairwise_append, List.forall_mem_append, List.forall_mem_singleton,
    List.pairwise_singleton]
  tauto

namespace AxisSet

theorem Holds.unique (h : s.Holds b cs) (h' : s'.Holds b cs) : s = s' := by
  refine eq_of_get? fun x => Option.ext fun u => ?_
  rw [h x u, h' x u]

theorem holds_nil_iff : s.Holds b [] ↔ s = empty := by
  have hempty : empty.Holds b [] := by
    intro x u
    simp [get?_empty]
  exact ⟨fun h => h.unique hempty, fun h => h ▸ hempty⟩

/-- The axes of the set are those that the clauses drive. -/
theorem Holds.exists_get?_iff (h : s.Holds b cs) (hcs : b.Allows cs) {x : Axis} :
    (∃ u, s.get? x = some u) ↔ ∃ c ∈ cs, c.axis? = some x := by
  constructor
  · rintro ⟨u, hu⟩
    obtain ⟨c, hc, hwrites⟩ := (h x u).mp hu
    exact ⟨c, hc, Clause.axis?_of_writes hwrites⟩
  · rintro ⟨c, hc, haxis⟩
    obtain ⟨u, hu⟩ := Clause.exists_writes (hcs.limited c hc) haxis
    exact ⟨u, (h x u).mpr ⟨c, hc, hu⟩⟩

/-- Inserting the update of one more clause. -/
theorem Holds.insert? (h : s.Holds b cs) {x : Axis} {u : Update} (hu : ∀ y v, c.Writes b y v ↔ x = y ∧ v = u)
    (hinsert : s.insert? x u = some s') : s'.Holds b (cs ++ [c]) := by
  obtain ⟨hfree, hget⟩ := get?_of_insert? hinsert
  intro y v
  rw [hget y]
  simp only [List.mem_append, List.mem_singleton, or_and_right, exists_or, exists_eq_left, ← h y v, hu y v]
  by_cases hy : x = y
  · subst hy
    simp [hfree, eq_comm]
  · simp [hy]

end AxisSet

/-- **One step.** A clause that is taken in behind others is allowed there, and adds its update and its warning. -/
theorem of_clause_check (hcs : b.Allows cs) (hacc : acc.1.Holds b cs) (h : c.check pose b acc = .ok acc') :
    b.Allows (cs ++ [c]) ∧ acc'.1.Holds b (cs ++ [c]) ∧ acc'.2 = acc.2 ++ (c.warning? pose b).toList := by
  obtain ⟨limit, x, sign, hlimit, haxis, hinsert, hwarnings⟩ := clause_check_eq_ok_iff.mp h
  refine ⟨Bone.allows_concat_iff.mpr ⟨hcs, by rw [hlimit]; rfl, ?_⟩,
    hacc.insert? (fun _ _ => Clause.writes_iff hlimit haxis) hinsert, hwarnings⟩
  rintro c' hc' ⟨y, hy, hy'⟩
  obtain rfl : x = y := by simpa [Clause.axis?, haxis] using hy'
  obtain ⟨u, hu⟩ := (hacc.exists_get?_iff hcs).mpr ⟨c', hc', hy⟩
  rw [(AxisSet.get?_of_insert? hinsert).1] at hu
  cases hu

theorem exists_clause_check (hacc : acc.1.Holds b cs) (h : b.Allows (cs ++ [c])) :
    ∃ acc', c.check pose b acc = .ok acc' := by
  obtain ⟨hcs, hlimit, hapart⟩ := Bone.allows_concat_iff.mp h
  obtain ⟨limit, hlimit⟩ := Option.isSome_iff_exists.mp hlimit
  obtain ⟨x, sign, haxis⟩ := exists_axis hlimit
  rw [clause_check_of_some hlimit haxis]
  cases hinsert : acc.1.insert? x ⟨sign, c.cut limit⟩ with
  | none =>
    obtain ⟨c', hc', hx⟩ := (hacc.exists_get?_iff hcs).mp (AxisSet.insert?_eq_none_iff.mp hinsert)
    exact absurd ⟨x, hx, by simp [Clause.axis?, haxis]⟩ (hapart c' hc')
  | some axes => exact ⟨_, rfl⟩

theorem foldlM_check_concat : (cs ++ [c]).foldlM (Clause.check pose b) (.empty, []) =
    (cs.foldlM (Clause.check pose b) (.empty, []) >>= fun acc => c.check pose b acc) := by
  rw [List.foldlM_append]
  simp only [List.foldlM_cons, List.foldlM_nil, bind_pure]

theorem of_foldlM_check (h : cs.foldlM (Clause.check pose b) (.empty, []) = .ok acc) :
    b.Allows cs ∧ acc.1.Holds b cs ∧ acc.2 = cs.filterMap (Clause.warning? pose b) := by
  -- from the last clause: what it may do depends on the axes of those before it
  induction cs using List.reverseRecOn generalizing acc with
  | nil =>
    cases h
    exact ⟨b.allows_nil, AxisSet.holds_nil_iff.mpr rfl, rfl⟩
  | append_singleton cs c ih =>
    rw [foldlM_check_concat] at h
    obtain ⟨mid, hmid, hc⟩ := bind_eq_ok_iff.mp h
    obtain ⟨hcs, hholds, hwarnings⟩ := ih hmid
    obtain ⟨hallows, hholds', hwarnings'⟩ := of_clause_check hcs hholds hc
    refine ⟨hallows, hholds', ?_⟩
    rw [hwarnings', hwarnings, List.filterMap_append]
    cases hwarning : c.warning? pose b <;> simp [hwarning]

theorem exists_foldlM_check (h : b.Allows cs) : ∃ acc, cs.foldlM (Clause.check pose b) (.empty, []) = .ok acc := by
  induction cs using List.reverseRecOn with
  | nil => exact ⟨_, rfl⟩
  | append_singleton cs c ih =>
    obtain ⟨mid, hmid⟩ := ih (Bone.allows_concat_iff.mp h).1
    obtain ⟨acc, hacc⟩ := exists_clause_check (of_foldlM_check hmid).2.1 h
    exact ⟨acc, foldlM_check_concat.trans (bind_eq_ok_iff.mpr ⟨mid, hmid, hacc⟩)⟩

/-- **All clauses.** They are taken in if and only if the bone allows them, with their updates and warnings. -/
theorem foldlM_check_eq_ok_iff : cs.foldlM (Clause.check pose b) (.empty, []) = .ok acc ↔
    b.Allows cs ∧ acc.1.Holds b cs ∧ acc.2 = cs.filterMap (Clause.warning? pose b) := by
  refine ⟨of_foldlM_check, ?_⟩
  rintro ⟨hallows, hholds, hwarnings⟩
  obtain ⟨acc', hacc'⟩ : ∃ acc, cs.foldlM (Clause.check pose b) (.empty, []) = .ok acc := exists_foldlM_check hallows
  obtain ⟨-, hholds', hwarnings'⟩ := of_foldlM_check hacc'
  rw [hacc', Prod.ext (hholds'.unique hholds) (hwarnings'.trans hwarnings.symm)]

end

/-! ### Statements, poses, documents -/

theorem statement_check_eq_ok_iff {key : String} {s : Statement} {r : CheckedStatement × List Warning} :
    s.check key = .ok r ↔ s.Becomes r.1 ∧ r.2 = s.warnings key := by
  obtain ⟨b, deed, span⟩ := s
  obtain ⟨t, ws⟩ := r
  cases deed with
  | reset =>
    constructor
    · rintro ⟨⟩
      exact ⟨.reset, rfl⟩
    · rintro ⟨⟨⟩, rfl⟩
      rfl
  | actions cs =>
    refine Iff.trans bind_eq_ok_iff ?_
    simp only [foldlM_check_eq_ok_iff]
    constructor
    · rintro ⟨⟨axes, _⟩, ⟨hallows, hholds, rfl⟩, ⟨⟩⟩
      exact ⟨.write hallows hholds, rfl⟩
    · rintro ⟨hbecomes, rfl⟩
      cases hbecomes with
      | @write _ _ _ axes hallows hholds => exact ⟨(axes, _), ⟨hallows, hholds, rfl⟩, rfl⟩

theorem pose_check_eq_ok_iff {key : String} {p : Pose} {r : CheckedPose × List Warning} :
    p.check key = .ok r ↔ p.Becomes key r.1 ∧ r.2 = p.warnings key := by
  obtain ⟨⟨name, statements⟩, ws⟩ := r
  have hstatements := mapM_pairs_iff (fun s r => @statement_check_eq_ok_iff key s r) p.statements statements ws
  refine Iff.trans bind_eq_ok_iff ?_
  constructor
  · rintro ⟨checked, hchecked, ⟨⟩⟩
    obtain ⟨hbecomes, hwarnings⟩ := hstatements.mp ⟨checked, hchecked, rfl, rfl⟩
    exact ⟨⟨rfl, hbecomes⟩, hwarnings⟩
  · rintro ⟨⟨rfl, hbecomes⟩, hwarnings⟩
    obtain ⟨checked, hchecked, rfl, rfl⟩ := hstatements.mpr ⟨hbecomes, hwarnings⟩
    exact ⟨checked, hchecked, rfl⟩

/-- What an entry of the poses becomes: a pose under the same key. -/
def EntryBecomes (entry : String × Pose) (checked : String × CheckedPose) : Prop :=
  checked.1 = entry.1 ∧ entry.2.Becomes entry.1 checked.2

theorem document_check_eq_ok_iff {D : Document} {C : Checked} : D.check = .ok C ↔
    (C.animations = D.animations ∧ C.main = D.main) ∧
      List.Forall₂ EntryBecomes D.poses C.poses ∧ C.warnings = D.warnings := by
  obtain ⟨poses, animations, main, ws⟩ := C
  have hentry : ∀ (entry : String × Pose) (r : (String × CheckedPose) × List Warning),
      (entry.2.check entry.1 >>= fun q => Except.ok ((entry.1, q.1), q.2)) = .ok r ↔
        EntryBecomes entry r.1 ∧ r.2 = entry.2.warnings entry.1 := by
    rintro ⟨key, p⟩ ⟨⟨key', q⟩, v⟩
    simp only [bind_eq_ok_iff, pose_check_eq_ok_iff, EntryBecomes, Prod.exists, Except.ok.injEq, Prod.mk.injEq]
    constructor
    · rintro ⟨q', v', ⟨hbecomes, hv⟩, ⟨rfl, rfl⟩, rfl⟩
      exact ⟨⟨rfl, hbecomes⟩, hv⟩
    · rintro ⟨⟨rfl, hbecomes⟩, hv⟩
      exact ⟨q, v, ⟨hbecomes, hv⟩, ⟨rfl, rfl⟩, rfl⟩
  have hposes := mapM_pairs_iff hentry D.poses poses ws
  refine Iff.trans bind_eq_ok_iff ?_
  constructor
  · rintro ⟨checked, hchecked, ⟨⟩⟩
    exact ⟨⟨rfl, rfl⟩, hposes.mp ⟨checked, hchecked, rfl, rfl⟩⟩
  · rintro ⟨⟨rfl, rfl⟩, hbecomes, hwarnings⟩
    obtain ⟨checked, hchecked, rfl, rfl⟩ := hposes.mpr ⟨hbecomes, hwarnings⟩
    exact ⟨checked, hchecked, rfl⟩

/-- **Magnitudes are cut at their limits, and each cut is reported.** Let a document be checked. Its animations and its
play list stay as they are. Its poses keep their keys and their order, and each of their statements becomes what
its clauses say. The warnings are those of the clauses above their limits, pose by pose, statement by statement and
clause by clause, whether or not a pose is played. -/
theorem check_clamps {D : Document} {C : Checked} (h : D.check = .ok C) :
    C.animations = D.animations ∧ C.main = D.main ∧ C.poses.map Prod.fst = D.poses.map Prod.fst ∧
    List.Forall₂ (fun p q => q.2.name = p.1 ∧ List.Forall₂ Statement.Becomes p.2.statements q.2.statements)
      D.poses C.poses ∧
    C.warnings = D.poses.flatMap fun (key, p) => p.statements.flatMap fun s =>
      s.clauses.filterMap (Clause.warning? key s.bone) := by
  obtain ⟨⟨hanimations, hmain⟩, hposes, hwarnings⟩ := document_check_eq_ok_iff.mp h
  refine ⟨hanimations, hmain, ?_, ?_, hwarnings⟩
  · exact (map_eq_map_of_forall₂ (hposes.imp fun p q hq => hq.1.symm)).symm
  · exact hposes.imp fun p q hq => ⟨hq.2.name, hq.2.statements⟩

/-- A pose that is not played: a nod beyond the limit, with a turn within it, and back. -/
def nodDocument : Document where
  poses := [("nod", ⟨"nod",
    [⟨.head, .actions [⟨.bend, .forward, 100, ⟨17, 21, 2, 6⟩⟩, ⟨.turn, .right, 30, ⟨35, 39, 2, 24⟩⟩], ⟨12, 16, 2, 1⟩⟩,
     ⟨.head, .reset, ⟨50, 54, 3, 1⟩⟩], ⟨0, 5, 1, 1⟩⟩)]

theorem check_clamps_nod : ∃ C axes, nodDocument.check = .ok C ∧
    C.poses = [("nod", ⟨"nod", [⟨.head, .write axes⟩, ⟨.head, .reset⟩]⟩)] ∧
    axes.get? .pitch = some ⟨.positive, 60⟩ ∧ axes.get? .yaw = some ⟨.negative, 30⟩ ∧ axes.get? .roll = none ∧
    C.warnings = [⟨"nod", .head, .bend, .forward, 100, 60, ⟨2, 6⟩⟩] := by
  let axes : AxisSet := ⟨#v[some ⟨.positive, 60⟩, some ⟨.negative, 30⟩, none, none, none, none]⟩
  let C : Checked := ⟨[("nod", ⟨"nod", [⟨.head, .write axes⟩, ⟨.head, .reset⟩]⟩)], [], [],
    [⟨"nod", .head, .bend, .forward, 100, 60, ⟨2, 6⟩⟩]⟩
  have hcheck : nodDocument.check = .ok C := by decide +kernel
  obtain ⟨-, -, -, -, hwarnings⟩ := check_clamps hcheck
  exact ⟨C, axes, hcheck, rfl, rfl, rfl, rfl, hwarnings.trans (by decide +kernel)⟩

end PoseLang

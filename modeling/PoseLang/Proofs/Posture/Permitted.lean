import PoseLang.Proofs.Posture
import PoseLang.Proofs.Timeline

/-!
# Postures within the limits

The table of limits says which motions a bone may make and how far. A pose that was checked stays within
the table on every axis of every bone, whatever its statements say and in whatever order
(`permits_posture`): a number that is not zero is the magnitude of a permitted motion, and the limit
of that motion does not lie below it.

What is proved:

* the limits of the table are finite and have no sign (`isMagnitude_limit`), and neither have the
  magnitudes of a text (`isMagnitude_clause`), so neither has a magnitude that was cut at a limit;
* what a clause or a statement gives to an axis is permitted there (`permits_clause`,
  `permits_statement`), so the last word of a pose about the axis is (`permits_value`);
* where no motion of the bone is permitted only zero is left (`eq_zero_of_permits`).
-/

namespace PoseLang

open Grammar

/-- The numbers that the table of limits permits on an axis of a bone: zero, and the magnitudes of
permitted motions with their signs. -/
inductive Bone.Permits (b : Bone) (x : Axis) : Float → Prop
  | rest : b.Permits x 0
  | motion {a : Action} {d : Direction} {sign : Sign} {limit m : Float} : a.axis? d = some (x, sign) →
      b.limit? a d = some limit → IsMagnitude m → ¬ limit < m → b.Permits x (sign.apply m)

/-! ### Limits and magnitudes -/

theorem Action.mem_all (a : Action) : a ∈ Action.all := by
  cases a <;> simp [Action.all]

theorem Direction.mem_all (d : Direction) : d ∈ Direction.all := by
  cases d <;> simp [Direction.all]

/-- The limits of the table. -/
theorem isMagnitude_limit {b : Bone} {a : Action} {d : Direction} {limit : Float} (h : b.limit? a d = some limit) :
    IsMagnitude limit := by
  have htable : ∀ b ∈ Bone.all, ∀ a ∈ Action.all, ∀ d ∈ Direction.all, ∀ limit ∈ b.limit? a d, IsMagnitude limit := by
    decide +kernel
  exact htable b b.mem_all a a.mem_all d d.mem_all limit h

/-- The magnitude of a clause is a number of its tokens. -/
theorem exists_token_of_isClause {ts : List Token} {c : Clause} (h : IsClause ts c) :
    ∃ t ∈ ts, t.kind = .number c.magnitude := by
  cases h with
  | @mk _ _ _ _ value _ _ s₃ => exact ⟨⟨.number value, s₃⟩, by simp, rfl⟩

/-- The magnitudes of a statement are numbers of its tokens. -/
theorem exists_token_of_isStatement {ts : List Token} {s : Statement} (h : IsStatement ts s) {cs : List Clause}
    (hcs : s.deed = .actions cs) {c : Clause} (hc : c ∈ cs) : ∃ t ∈ ts, t.kind = .number c.magnitude := by
  cases h with
  | reset => cases hcs
  | actions hfirst hmore =>
    cases hcs
    rcases List.mem_cons.mp hc with rfl | hc
    · obtain ⟨t, ht, hkind⟩ := exists_token_of_isClause hfirst
      exact ⟨t, by simp [ht], hkind⟩
    · obtain ⟨us, hus, hphrase⟩ := hmore.exists_phrase c hc
      obtain ⟨hclause⟩ := hphrase
      obtain ⟨t, ht, hkind⟩ := exists_token_of_isClause hclause
      have hmem := hus (List.mem_cons_of_mem _ ht)
      exact ⟨t, by simp [hmem], hkind⟩

/-- The magnitudes of a document are numbers of its tokens. -/
theorem exists_token_magnitude {ts : List Token} {D : Document} (h : Denotes ts D) {key : String} {p : Pose}
    (hp : (key, p) ∈ D.poses) {s : Statement} (hs : s ∈ p.statements) {cs : List Clause} (hcs : s.deed = .actions cs)
    {c : Clause} (hc : c ∈ cs) : ∃ t ∈ ts, t.kind = .number c.magnitude := by
  obtain ⟨bs, hbs, -, rfl⟩ := h
  obtain ⟨pose, hpose, heq⟩ := List.mem_map.mp hp
  cases heq
  obtain ⟨block, hblock, hpose⟩ := List.mem_filterMap.mp hpose
  obtain ⟨us, hus, hphrase⟩ := hbs.exists_phrase block hblock
  cases hphrase with
  | pose hstatements =>
    cases hpose
    obtain ⟨vs, hvs, hstatement⟩ := hstatements.exists_phrase s hs
    obtain ⟨t, ht, hkind⟩ := exists_token_of_isStatement hstatement hcs hc
    have hmem := hvs ht
    exact ⟨t, hus (by simp [hmem]), hkind⟩
  | animation => cases hpose
  | main => cases hpose

/-- The magnitudes of a text. -/
theorem isMagnitude_clause {limits : InputLimits} {source : String} {D : Document} (h : parse limits source = .ok D)
    {key : String} {p : Pose} (hp : (key, p) ∈ D.poses) {s : Statement} (hs : s ∈ p.statements) {cs : List Clause}
    (hcs : s.deed = .actions cs) {c : Clause} (hc : c ∈ cs) : IsMagnitude c.magnitude := by
  obtain ⟨ts, hts, hD⟩ := denotes_of_parse h
  obtain ⟨t, ht, hkind⟩ := exists_token_magnitude hD hp hs hcs hc
  exact isMagnitude_of_tokenize hts ht hkind

/-! ### What is permitted -/

/-- A clause gives its axis a permitted number. -/
theorem permits_clause {b : Bone} {x : Axis} {c : Clause} {v : Float} (hc : IsMagnitude c.magnitude)
    (h : c.value? b x = some v) : b.Permits x v := by
  unfold Clause.value? at h
  split at h
  next limit y sign hlimit haxis =>
    split at h
    next hy =>
      cases h
      rw [hy] at haxis
      unfold Clause.cut
      by_cases hover : limit < c.magnitude
      · rw [if_pos hover]
        exact .motion haxis hlimit (isMagnitude_limit hlimit) fun hself => float_lt_asymm hself hself
      · rw [if_neg hover]
        exact .motion haxis hlimit hc hover
    next => cases h
  next => cases h

/-- A statement gives each axis a permitted number. -/
theorem permits_statement {s : Statement} {x : Axis} {v : Float}
    (hs : ∀ cs, s.deed = .actions cs → ∀ c ∈ cs, IsMagnitude c.magnitude) (h : s.value? x = some v) :
    s.bone.Permits x v := by
  unfold Statement.value? at h
  split at h
  next =>
    cases h
    exact .rest
  next cs hcs =>
    obtain ⟨c, hc, hvalue⟩ := List.exists_of_findSome?_eq_some h
    exact permits_clause (hs cs hcs c hc) hvalue

/-- A pose gives each axis of each bone a permitted number. -/
theorem permits_value {p : Pose}
    (hp : ∀ s ∈ p.statements, ∀ cs, s.deed = .actions cs → ∀ c ∈ cs, IsMagnitude c.magnitude) (b : Bone) (x : Axis) :
    b.Permits x (p.value b x) := by
  unfold Pose.value
  cases hlast : p.statements.reverse.findSome? fun s => if s.bone = b then s.value? x else none with
  | none => exact .rest
  | some v =>
    obtain ⟨s, hs, hvalue⟩ := List.exists_of_findSome?_eq_some hlast
    split at hvalue
    next hb =>
      subst hb
      exact permits_statement (hp s (List.mem_reverse.mp hs)) hvalue
    next => cases hvalue

/-- An axis on which the bone may make no motion is at zero. -/
theorem eq_zero_of_permits {b : Bone} {x : Axis} {v : Float} (h : b.Permits x v)
    (hnone : ∀ a d sign, a.axis? d = some (x, sign) → b.limit? a d = none) : v = 0 := by
  cases h with
  | rest => rfl
  | motion haxis hlimit =>
    rw [hnone _ _ _ haxis] at hlimit
    cases hlimit

/-- Only `move` shifts a bone. -/
theorem limit?_eq_none_of_not_isMovable {b : Bone} {x : Axis} (hb : b.isMovable = false) (hx : x.isAngle = false)
    (a : Action) (d : Direction) (sign : Sign) (h : a.axis? d = some (x, sign)) : b.limit? a d = none := by
  have htranslate : b.limits.translate = none := by simpa [Bone.isMovable] using hb
  cases a with
  | move => simpa [Bone.limit?] using htranslate
  | bend | turn | sway => cases d <;> cases h <;> cases hx

/-- **No posture leaves the table of limits.** Let a text be read and checked. Every axis of every bone in
every posture is at a permitted number; so it is at the zero without a sign if the bone may make no
motion on the axis, as on the shifts of a bone that is not movable. -/
theorem permits_posture {limits : InputLimits} {source : String} {D : Document} {C : Checked} {key : String}
    {q : Posture} (hD : parse limits source = .ok D) (hC : D.check = .ok C) (hq : (key, q) ∈ C.postures)
    (b : Bone) (x : Axis) :
    b.Permits x ((q.bone b).get x) ∧
    ((∀ a d sign, a.axis? d = some (x, sign) → b.limit? a d = none) → (q.bone b).get x = 0) ∧
    (b.isMovable = false → x.isAngle = false → (q.bone b).get x = 0) := by
  obtain ⟨-, p, hp, hshows⟩ := exists_pose_of_mem hC hq
  have hpermits : b.Permits x ((q.bone b).get x) := by
    rw [hshows b x]
    exact permits_value (fun s hs cs hcs c hc => isMagnitude_clause hD hp hs hcs hc) b x
  exact ⟨hpermits, eq_zero_of_permits hpermits,
    fun hb hx => eq_zero_of_permits hpermits (limit?_eq_none_of_not_isMovable hb hx)⟩

/-- A magnitude above its limit, of a bone that may not be shifted. -/
def noddingSource : String := "@pose nod \x7b head bend forward 100; \x7d"

theorem permits_nodding : ∃ D C q, parse {} noddingSource = .ok D ∧ D.check = .ok C ∧ ("nod", q) ∈ C.postures ∧
    (q.bone .head).get .pitch = 60 ∧ Bone.head.Permits .pitch 60 ∧ (q.bone .head).get .translateX = 0 := by
  let q := (Posture.rest "nod").setBone .head (Transform.rest.set .pitch 60)
  have hstages : (do
      let D ← parse {} noddingSource
      let C ← D.check
      Except.ok C.postures) = .ok [("nod", q)] := by decide +kernel
  obtain ⟨D, hD, h⟩ := bind_eq_ok_iff.mp hstages
  obtain ⟨C, hC, h⟩ := bind_eq_ok_iff.mp h
  have hq : ("nod", q) ∈ C.postures := by simp [Except.ok.inj h]
  have hpitch : (q.bone .head).get .pitch = 60 := by simp [q, Posture.bone_setBone, Transform.get_set]
  have hpermits := (permits_posture hD hC hq .head .pitch).1
  rw [hpitch] at hpermits
  exact ⟨D, C, q, hD, hC, hq, hpitch, hpermits, (permits_posture hD hC hq .head .translateX).2.2 rfl rfl⟩

end PoseLang

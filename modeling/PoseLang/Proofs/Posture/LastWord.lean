import PoseLang.Proofs.Posture

/-!
# The last word about an axis

A checked pose may speak of one bone many times, with resets and sets of axes in any order. `LastWord` reads
off the statements what counts in the end: the last statement on the bone that resets it or writes the axis,
and zero if there is none.

What is proved:

* the posture has the last word on every axis of every bone, and nothing else (`lastWord_value`,
  `value_of_lastWord`);
* so statements on other bones and on other axes do not matter, a reset cancels the earlier statements of
  its bone and no others, and a bone that is not mentioned is at rest (`posture_lastWord`).
-/

namespace PoseLang

/-- The statement is about the axis of the bone: it is on the bone, and resets it or writes the axis. -/
def CheckedStatement.Concerns (s : CheckedStatement) (b : Bone) (x : Axis) : Prop :=
  s.bone = b ∧ (s.change = .reset ∨ ∃ axes u, s.change = .write axes ∧ axes.get? x = some u)

/-- The last word of some statements about an axis of a bone. -/
inductive LastWord (b : Bone) (x : Axis) : List CheckedStatement → Float → Prop
  | silent {ss : List CheckedStatement} : (∀ s ∈ ss, ¬ s.Concerns b x) → LastWord b x ss 0
  | reset {before after : List CheckedStatement} : (∀ s ∈ after, ¬ s.Concerns b x) →
      LastWord b x (before ++ ⟨b, .reset⟩ :: after) 0
  | update {before after : List CheckedStatement} {axes : AxisSet} {u : Update} : axes.get? x = some u →
      (∀ s ∈ after, ¬ s.Concerns b x) → LastWord b x (before ++ ⟨b, .write axes⟩ :: after) u.value

section

variable {b : Bone} {x : Axis}

namespace CheckedStatement

variable {s : CheckedStatement}

/-- A statement gives an axis no number if and only if it is not about it. -/
theorem value?_eq_none_iff : s.value? b x = none ↔ ¬ s.Concerns b x := by
  unfold value? Concerns
  by_cases hb : s.bone = b
  · cases s.change with
    | reset => simp [hb]
    | write axes => cases haxis : axes.get? x <;> simp [hb, haxis]
  · simp [hb]

/-- The statements that give an axis a number. -/
theorem value?_eq_some_iff {v : Float} : s.value? b x = some v ↔
    (s = ⟨b, .reset⟩ ∧ v = 0) ∨ ∃ axes u, s = ⟨b, .write axes⟩ ∧ axes.get? x = some u ∧ v = u.value := by
  obtain ⟨bone, change⟩ := s
  unfold value?
  by_cases hb : bone = b
  · cases change with
    | reset => simp [hb, eq_comm]
    | write axes => cases haxis : axes.get? x <;> simp [hb, haxis, eq_comm]
  · simp [hb]

end CheckedStatement

theorem findSome?_of_silent {ss : List CheckedStatement} (h : ∀ s ∈ ss, ¬ s.Concerns b x) :
    ss.reverse.findSome? (·.value? b x) = none := by
  refine List.findSome?_eq_none_iff.mpr fun s hs => ?_
  exact CheckedStatement.value?_eq_none_iff.mpr (h s (List.mem_reverse.mp hs))

/-- What comes after the last statement about an axis does not change its number. -/
theorem findSome?_of_last {before after : List CheckedStatement} {s : CheckedStatement} {v : Float}
    (hs : s.value? b x = some v) (hafter : ∀ s ∈ after, ¬ s.Concerns b x) :
    (before ++ s :: after).reverse.findSome? (·.value? b x) = some v := by
  rw [List.reverse_append, List.reverse_cons, List.append_assoc, List.findSome?_append, findSome?_of_silent hafter]
  simp [hs]

/-- The number that a pose gives to an axis is a last word about it. -/
theorem lastWord_value (p : CheckedPose) (b : Bone) (x : Axis) : LastWord b x p.statements (p.value b x) := by
  unfold CheckedPose.value
  cases hfound : p.statements.reverse.findSome? (·.value? b x) with
  | none =>
    refine .silent fun s hs => CheckedStatement.value?_eq_none_iff.mp ?_
    exact List.findSome?_eq_none_iff.mp hfound s (List.mem_reverse.mpr hs)
  | some v =>
    obtain ⟨after, s, before, hsplit, hs, hafter⟩ := List.findSome?_eq_some_iff.mp hfound
    have hstatements : p.statements = before.reverse ++ s :: after.reverse := by
      simpa using congrArg List.reverse hsplit
    have hsilent : ∀ t ∈ after.reverse, ¬ t.Concerns b x := fun t ht =>
      CheckedStatement.value?_eq_none_iff.mp (hafter t (List.mem_reverse.mp ht))
    rw [hstatements]
    rcases CheckedStatement.value?_eq_some_iff.mp hs with ⟨rfl, rfl⟩ | ⟨axes, u, rfl, haxis, rfl⟩
    · exact .reset hsilent
    · exact .update haxis hsilent

/-- There is only one last word about an axis. -/
theorem value_of_lastWord {name : String} {ss : List CheckedStatement} {v : Float} (h : LastWord b x ss v) :
    CheckedPose.value ⟨name, ss⟩ b x = v := by
  unfold CheckedPose.value
  cases h with
  | silent hsilent => rw [findSome?_of_silent hsilent]; rfl
  | reset hafter =>
    rw [findSome?_of_last (CheckedStatement.value?_eq_some_iff.mpr (.inl ⟨rfl, rfl⟩)) hafter]
    rfl
  | update haxis hafter =>
    rw [findSome?_of_last (CheckedStatement.value?_eq_some_iff.mpr (.inr ⟨_, _, rfl, haxis, rfl⟩)) hafter]
    rfl

/-- Only the numbers that statements give to the axis count. -/
theorem CheckedPose.value_eq_getLast? (p : CheckedPose) (b : Bone) (x : Axis) :
    p.value b x = ((p.statements.filterMap (·.value? b x)).getLast?).getD 0 := by
  unfold value
  rw [← List.head?_filterMap, List.filterMap_reverse, List.head?_reverse]

/-- What statements say about a bone, if those on another bone are left out. -/
theorem filterMap_filter_bone {c : Bone} (hc : b ≠ c) (ss : List CheckedStatement) :
    (ss.filter (·.bone ≠ c)).filterMap (·.value? b x) = ss.filterMap (·.value? b x) := by
  rw [List.filterMap_filter]
  refine List.filterMap_congr fun s _ => ?_
  by_cases hs : s.bone = c
  · simp [CheckedStatement.value?, hs, Ne.symm hc]
  · simp [hs]

/-- A reset leaves only what comes after it about its bone, and all there is about the others. -/
theorem value_reset (name : String) (before after : List CheckedStatement) (c b : Bone) (x : Axis) :
    CheckedPose.value ⟨name, before ++ ⟨c, .reset⟩ :: after⟩ b x =
      CheckedPose.value ⟨name, before.filter (·.bone ≠ c) ++ after⟩ b x := by
  rw [CheckedPose.value_eq_getLast?, CheckedPose.value_eq_getLast?, List.filterMap_append, List.filterMap_append]
  by_cases hc : b = c
  · subst hc
    have hbefore : (before.filter (·.bone ≠ b)).filterMap (·.value? b x) = [] := by
      simp +contextual [List.filterMap_eq_nil_iff, CheckedStatement.value?]
    have hreset : CheckedStatement.value? ⟨b, .reset⟩ b x = some 0 :=
      CheckedStatement.value?_eq_some_iff.mpr (.inl ⟨rfl, rfl⟩)
    rw [hbefore, List.nil_append, List.filterMap_cons, hreset]
    cases after.filterMap (·.value? b x) with
    | nil => simp
    | cons v vs => rw [List.getLast?_append_of_ne_nil _ (by simp), List.getLast?_cons_cons]
  · have hreset : CheckedStatement.value? ⟨c, .reset⟩ b x = none := by simp [CheckedStatement.value?, Ne.symm hc]
    rw [filterMap_filter_bone hc, List.filterMap_cons, hreset]

end

/-- **The last word counts.** On each axis of each bone the posture of a pose has the last word that the
statements say about it. So two poses whose statements give the axis the same numbers agree there, whatever
they say about other axes and bones; a reset cancels the statements on its bone that come before it, and
nothing else; and a bone that no statement mentions is at rest. -/
theorem posture_lastWord (p : CheckedPose) (b : Bone) (x : Axis) :
    (∀ v, (p.posture.bone b).get x = v ↔ LastWord b x p.statements v) ∧
    (∀ p' : CheckedPose, p'.statements.filterMap (·.value? b x) = p.statements.filterMap (·.value? b x) →
      (p'.posture.bone b).get x = (p.posture.bone b).get x) ∧
    (∀ before after, p.statements = before ++ ⟨b, .reset⟩ :: after →
      p.posture = CheckedPose.posture ⟨p.name, before.filter (·.bone ≠ b) ++ after⟩) ∧
    ((∀ s ∈ p.statements, s.bone ≠ b) → p.posture.bone b = .rest) := by
  obtain ⟨name, ss⟩ := p
  refine ⟨fun v => ?_, fun p' hsame => ?_, ?_, fun hother => ?_⟩
  · rw [CheckedPose.get_posture]
    exact ⟨fun hv => hv ▸ lastWord_value _ b x, value_of_lastWord⟩
  · rw [CheckedPose.get_posture, CheckedPose.get_posture, CheckedPose.value_eq_getLast?, hsame,
      ← CheckedPose.value_eq_getLast?]
  · rintro before after rfl
    refine Posture.eq_of_get ?_ fun c y => ?_
    · rw [CheckedPose.posture, CheckedPose.posture, Posture.name_foldl_apply, Posture.name_foldl_apply]
    · rw [CheckedPose.get_posture, CheckedPose.get_posture, value_reset]
  · refine Transform.eq_of_get fun y => ?_
    rw [CheckedPose.get_posture, Transform.get_rest]
    exact value_of_lastWord (.silent fun s hs hconcerns => hother s hs hconcerns.1)

end PoseLang

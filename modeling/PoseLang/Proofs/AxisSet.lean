import PoseLang.Proofs.Document.Checked

/-!
# The first write of an axis wins

A set of axes is built insert by insert. An axis that was written before refuses every further update, and the set then
stays as it was. What a set shows afterwards is said here by the inserts alone, the refused ones included.

What is proved:

* one insert is taken if its axis is free, and then writes this axis and counts as one more
  (`offer_snd`, `get?_offer`, `size_offer`);
* so after any inserts an axis has the update that came first for it (`get?_after`), an insert is answered by those
  before it (`getElem?_answers`), and the size is the number of inserts that were taken (`size_after`);
* the list of a set has the written axes, each once and in order (`mem_toList_iff`, `toList_ascends`);
* together this is `firstWrite_wins`.
-/

namespace PoseLang.AxisSet

/-- Offers an update to an axis: the set that there is then, and whether the update was taken. -/
def offer (s : AxisSet) (i : Axis × Update) : AxisSet × Bool :=
  match s.insert? i.1 i.2 with
  | some s' => (s', true)
  | none => (s, false)

/-- The set after some inserts, one behind the other. -/
def after (s : AxisSet) (is : List (Axis × Update)) : AxisSet := is.foldl (fun s i => (s.offer i).1) s

/-- What these inserts answer, each at the set that the ones before it left. -/
def answers (s : AxisSet) : List (Axis × Update) → List Bool
  | [] => []
  | i :: is => (s.offer i).2 :: (s.offer i).1.answers is

/-! ### One insert -/

variable (s : AxisSet) (i : Axis × Update) (is : List (Axis × Update))

theorem offer_cases :
    (s.get? i.1 = none ∧ ∃ s', s.insert? i.1 i.2 = some s' ∧ s.offer i = (s', true)) ∨
    ((∃ u, s.get? i.1 = some u) ∧ s.offer i = (s, false)) := by
  unfold offer
  cases hinsert : s.insert? i.1 i.2 with
  | some s' => exact .inl ⟨(get?_of_insert? hinsert).1, s', rfl, rfl⟩
  | none => exact .inr ⟨insert?_eq_none_iff.mp hinsert, rfl⟩

/-- An update is taken if and only if its axis is free. -/
theorem offer_snd : (s.offer i).2 = (s.get? i.1).isNone := by
  obtain ⟨hfree, s', -, hoffer⟩ | ⟨⟨u, hu⟩, hoffer⟩ := s.offer_cases i
  · rw [hoffer, hfree, Option.isNone_none]
  · rw [hoffer, hu, Option.isNone_some]

/-- An axis keeps the update that it has. -/
theorem get?_offer (y : Axis) : (s.offer i).1.get? y = (s.get? y).or (if i.1 = y then some i.2 else none) := by
  obtain ⟨hfree, s', hinsert, hoffer⟩ | ⟨⟨u, hu⟩, hoffer⟩ := s.offer_cases i
  · rw [hoffer, (get?_of_insert? hinsert).2 y]
    by_cases hy : i.1 = y
    · rw [if_pos hy, if_pos hy, ← hy, hfree, Option.none_or]
    · rw [if_neg hy, if_neg hy, Option.or_none]
  · rw [hoffer]
    by_cases hy : i.1 = y
    · rw [← hy, hu, Option.some_or]
    · rw [if_neg hy, Option.or_none]

theorem size_offer : (s.offer i).1.size = s.size + (if (s.offer i).2 then 1 else 0) := by
  obtain ⟨hfree, s', hinsert, hoffer⟩ | ⟨-, hoffer⟩ := s.offer_cases i
  · have hslots : s' = ⟨s.slots.set i.1.index (some i.2) i.1.index_lt⟩ := by
      rw [insert?, hfree] at hinsert
      exact (Option.some.inj hinsert).symm
    have hlength : i.1.index.val < s.slots.toList.length := by
      rw [Vector.length_toList]
      exact i.1.index_lt
    have hnone : s.slots.toList[i.1.index.val] = none := by
      rw [Vector.getElem_toList]
      exact hfree
    rw [hoffer, hslots, size, size, Vector.toList_set, List.countP_set hlength, hnone]
    rfl
  · rw [hoffer]
    rfl

/-! ### Inserts in a row -/

theorem get?_after (x : Axis) : (s.after is).get? x = (s.get? x).or (is.lookup x) := by
  induction is generalizing s with
  | nil => exact Option.or_none.symm
  | cons i is ih =>
    have hlookup : (i :: is).lookup x = (if i.1 = x then some i.2 else none).or (is.lookup x) := by
      rw [List.lookup_cons]
      by_cases hx : i.1 = x
      · simp [hx]
      · have hbeq : (x == i.1) = false := beq_false_of_ne (Ne.symm hx)
        simp only [hbeq, if_neg hx, Option.none_or]
    calc (s.after (i :: is)).get? x
      _ = ((s.offer i).1.get? x).or (is.lookup x) := ih (s.offer i).1
      _ = ((s.get? x).or (if i.1 = x then some i.2 else none)).or (is.lookup x) := by rw [get?_offer]
      _ = (s.get? x).or ((i :: is).lookup x) := by rw [Option.or_assoc, hlookup]

theorem getElem?_answers (n : Nat) :
    (s.answers is)[n]? = is[n]?.map fun i => ((s.after (is.take n)).offer i).2 := by
  induction is generalizing s n with
  | nil => rfl
  | cons i is ih =>
    cases n with
    | zero => rfl
    | succ n => exact ih (s.offer i).1 n

theorem after_take_succ {n : Nat} {i : Axis × Update} (h : is[n]? = some i) :
    s.after (is.take (n + 1)) = ((s.after (is.take n)).offer i).1 := by
  rw [List.take_add_one, h, after, List.foldl_append]
  rfl

theorem size_after : (s.after is).size = s.size + (s.answers is).count true := by
  induction is generalizing s with
  | nil => rfl
  | cons i is ih =>
    calc (s.after (i :: is)).size
      _ = (s.offer i).1.size + ((s.offer i).1.answers is).count true := ih (s.offer i).1
      _ = s.size + (s.answers (i :: is)).count true := by
        rw [size_offer, answers, List.count_cons, beq_true]
        omega

/-- After inserts into the empty set an axis is free if none of them was for it. -/
theorem isNone_get?_after_empty (x : Axis) :
    ((empty.after is).get? x).isNone = decide (∀ i ∈ is, i.1 ≠ x) := by
  rw [get?_after, get?_empty, Option.none_or, Bool.eq_iff_iff, decide_eq_true_iff, Option.isNone_iff_eq_none,
    lookup_eq_none_iff_notMem, List.mem_map]
  simp only [not_exists, not_and, ne_eq]

/-! ### The list of a set -/

theorem mem_toList_iff {x : Axis} {u : Update} : (x, u) ∈ s.toList ↔ s.get? x = some u := by
  rw [toList, List.mem_filterMap]
  constructor
  · rintro ⟨y, -, hy⟩
    obtain ⟨v, hv, hyv⟩ := Option.map_eq_some_iff.mp hy
    cases hyv
    exact hv
  · intro h
    exact ⟨x, x.mem_all, by rw [h]; rfl⟩

/-- The axes stand in their order, so none of them stands twice. -/
theorem toList_ascends : s.toList.Pairwise fun a b => a.1.index < b.1.index := by
  have hall : Axis.all.Pairwise fun x y => x.index < y.index := by decide
  refine List.pairwise_filterMap.mpr (hall.imp fun {x y} hxy a ha b hb => ?_)
  obtain ⟨u, -, rfl⟩ := Option.map_eq_some_iff.mp ha
  obtain ⟨v, -, rfl⟩ := Option.map_eq_some_iff.mp hb
  exact hxy

/-- **The first write wins.** Take any inserts, one behind the other, into the empty set. An insert is taken if and only
if none before it was for its axis, and one that is not taken leaves the set as it was. Afterwards each axis has the
update of the first insert for it, the size is the number of inserts that were taken, and the list has the written axes
with their updates, each once and in the order of the axes. -/
theorem firstWrite_wins (is : List (Axis × Update)) :
    (∀ n : Nat, (empty.answers is)[n]? = is[n]?.map fun i => decide (∀ j ∈ is.take n, j.1 ≠ i.1)) ∧
    (∀ n : Nat, (empty.answers is)[n]? = some false → empty.after (is.take (n + 1)) = empty.after (is.take n)) ∧
    (∀ x, (empty.after is).get? x = is.lookup x) ∧
    (empty.after is).size = (empty.answers is).count true ∧
    (∀ x u, (x, u) ∈ (empty.after is).toList ↔ (empty.after is).get? x = some u) ∧
    (empty.after is).toList.Pairwise fun a b => a.1.index < b.1.index := by
  refine ⟨fun n => ?_, fun n hn => ?_, fun x => ?_, ?_, fun x u => mem_toList_iff _, toList_ascends _⟩
  · rw [getElem?_answers]
    congr 1
    funext i
    rw [offer_snd, isNone_get?_after_empty]
  · rw [getElem?_answers] at hn
    obtain ⟨i, hi, hrefused⟩ := Option.map_eq_some_iff.mp hn
    rw [after_take_succ empty is hi]
    obtain ⟨-, s', -, hoffer⟩ | ⟨-, hoffer⟩ := (empty.after (is.take n)).offer_cases i
    · rw [hoffer] at hrefused
      cases hrefused
    · rw [hoffer]
  · rw [get?_after, get?_empty, Option.none_or]
  · rw [size_after]
    exact Nat.zero_add _

/-- The second update of an axis is refused, also when it differs from the first. -/
example :
    let is : List (Axis × Update) := [(.roll, ⟨.positive, 20.0⟩), (.pitch, ⟨.negative, 5.0⟩), (.roll, ⟨.negative, 1.0⟩)]
    empty.answers is = [true, true, false] ∧
    (empty.after is).toList = [(.pitch, ⟨.negative, 5.0⟩), (.roll, ⟨.positive, 20.0⟩)] := by
  decide

end PoseLang.AxisSet

import Mathlib.Data.List.Forall2
import Mathlib.Data.List.Nodup

/-!
# Lists of answers, lists with keys

Facts about lists that the stages of the compiler share. A computation over a list that may
fail gives an answer exactly if each element has one (`exists_mapM_eq_ok_iff`), and then the answers
stand in the order of the elements (`mapM_eq_ok_iff`, `mapM_eq_some_iff`); otherwise the first element
that has none says why (`mapM_eq_error_iff`). The first fault of several lists is that of the first list
with a fault (`first_flatMap_iff`). A list of pairs in which no key occurs twice
is a map: looking a key up finds exactly the pair that the list has for it
(`mem_of_lookup`, `lookup_of_mem`); so does any search for something that only one element can have
(`find?_eq_some_iff_of_unique`). A search that looks at one feature of the elements depends on this
feature alone (`findSome?_eq_of_map`).
-/

namespace PoseLang

/-- Lists that agree element by element in something give the same list of it. -/
theorem map_eq_map_of_forall₂ {α β γ : Type} {f : α → γ} {g : β → γ} {l : List α} {l' : List β}
    (h : List.Forall₂ (fun a b => f a = g b) l l') : l.map f = l'.map g := by
  induction h with
  | nil => rfl
  | cons hab _ ih => rw [List.map_cons, List.map_cons, hab, ih]

/-! ### Computations that may fail -/

section Outcome

variable {ε α β : Type}

theorem bind_eq_ok_iff {x : Except ε α} {f : α → Except ε β} {b : β} :
    (x >>= f) = .ok b ↔ ∃ a, x = .ok a ∧ f a = .ok b := by
  cases x with
  | error e => simp [bind, Except.bind]
  | ok a => simp [bind, Except.bind]

theorem bind_eq_error_iff {x : Except ε α} {f : α → Except ε β} {e : ε} :
    (x >>= f) = .error e ↔ x = .error e ∨ ∃ a, x = .ok a ∧ f a = .error e := by
  cases x with
  | error e' => simp [bind, Except.bind]
  | ok a => simp [bind, Except.bind]

/-- What comes after a computation and cannot fail does not matter for its errors. -/
theorem bind_eq_error_iff_left {x : Except ε α} {f : α → Except ε β} {e : ε} (hf : ∀ a, f a ≠ .error e) :
    (x >>= f) = .error e ↔ x = .error e := by
  rw [bind_eq_error_iff]
  refine or_iff_left ?_
  rintro ⟨a, -, ha⟩
  exact hf a ha

theorem mapM_eq_ok_iff {f : α → Except ε β} {l : List α} {l' : List β} :
    l.mapM f = .ok l' ↔ List.Forall₂ (fun a b => f a = .ok b) l l' := by
  induction l generalizing l' with
  | nil => cases l' <;> simp [pure, Except.pure]
  | cons a l ih =>
    rw [List.mapM_cons, bind_eq_ok_iff, List.forall₂_cons_left_iff]
    constructor
    · rintro ⟨b, hb, h⟩
      obtain ⟨bs, hbs, h⟩ := bind_eq_ok_iff.mp h
      cases h
      exact ⟨b, bs, hb, ih.mp hbs, rfl⟩
    · rintro ⟨b, bs, hb, hbs, rfl⟩
      exact ⟨b, hb, bind_eq_ok_iff.mpr ⟨bs, ih.mpr hbs, rfl⟩⟩

theorem exists_mapM_eq_ok_iff {f : α → Except ε β} {l : List α} :
    (∃ l', l.mapM f = .ok l') ↔ ∀ a ∈ l, ∃ b, f a = .ok b := by
  induction l with
  | nil => simp [pure, Except.pure]
  | cons a l ih =>
    rw [List.forall_mem_cons, ← ih, List.mapM_cons]
    simp only [bind_eq_ok_iff]
    constructor
    · rintro ⟨_, b, hb, bs, hbs, -⟩
      exact ⟨⟨b, hb⟩, bs, hbs⟩
    · rintro ⟨⟨b, hb⟩, bs, hbs⟩
      exact ⟨b :: bs, b, hb, bs, hbs, rfl⟩

/-- A computation over a list fails as its first element that fails does. -/
theorem mapM_eq_error_iff {f : α → Except ε β} {l : List α} {e : ε} :
    l.mapM f = .error e ↔
      ∃ before a after, l = before ++ a :: after ∧ (∀ b ∈ before, ∃ c, f b = .ok c) ∧ f a = .error e := by
  induction l with
  | nil => simp [pure, Except.pure]
  | cons a l ih =>
    rw [List.mapM_cons, bind_eq_error_iff]
    constructor
    · rintro (ha | ⟨c, hc, h⟩)
      · exact ⟨[], a, l, rfl, by simp, ha⟩
      · rcases bind_eq_error_iff.mp h with h | ⟨_, -, h⟩
        · obtain ⟨before, b, after, rfl, hbefore, hb⟩ := ih.mp h
          exact ⟨a :: before, b, after, rfl, List.forall_mem_cons.mpr ⟨⟨c, hc⟩, hbefore⟩, hb⟩
        · cases h
    · rintro ⟨before, b, after, hl, hbefore, hb⟩
      cases before with
      | nil =>
        cases hl
        exact .inl hb
      | cons a' before =>
        cases hl
        obtain ⟨⟨c, hc⟩, hbefore⟩ := List.forall_mem_cons.mp hbefore
        refine .inr ⟨c, hc, bind_eq_error_iff.mpr (.inl (ih.mpr ⟨before, b, after, rfl, hbefore, hb⟩))⟩

/-- Every answer is the answer of some element. -/
theorem exists_of_mapM {f : α → Except ε β} {l : List α} {l' : List β} (h : l.mapM f = .ok l') {b : β}
    (hb : b ∈ l') : ∃ a ∈ l, f a = .ok b := by
  induction mapM_eq_ok_iff.mp h with
  | nil => cases hb
  | @cons a b' l l' ha hl ih =>
    rcases List.mem_cons.mp hb with rfl | hb
    · exact ⟨a, List.mem_cons_self, ha⟩
    · obtain ⟨a', ha', hfa'⟩ := ih (mapM_eq_ok_iff.mpr hl) hb
      exact ⟨a', List.mem_cons_of_mem _ ha', hfa'⟩

/-- A computation that gives an answer and a list for each element, the lists joined in order. -/
theorem mapM_pairs_iff {γ : Type} {f : α → Except ε (β × List γ)} {p : α → β → Prop} {lists : α → List γ}
    (hf : ∀ a r, f a = .ok r ↔ p a r.1 ∧ r.2 = lists a) (l : List α) (l' : List β) (v : List γ) :
    (∃ rs, l.mapM f = .ok rs ∧ rs.map (·.1) = l' ∧ rs.flatMap (·.2) = v) ↔
      List.Forall₂ p l l' ∧ v = l.flatMap lists := by
  simp only [mapM_eq_ok_iff, hf]
  induction l generalizing l' v with
  | nil => simp [eq_comm]
  | cons a l ih =>
    constructor
    · rintro ⟨_, _ | ⟨⟨ha, hlist⟩, hl⟩, rfl, rfl⟩
      obtain ⟨hl', hv⟩ := (ih _ _).mp ⟨_, hl, rfl, rfl⟩
      exact ⟨.cons ha hl', by rw [List.flatMap_cons, List.flatMap_cons, hlist, hv]⟩
    · rintro ⟨_ | ⟨ha, hl⟩, rfl⟩
      obtain ⟨rs, hrs, rfl, hv⟩ := (ih _ _).mpr ⟨hl, rfl⟩
      exact ⟨(_, lists a) :: rs, .cons ⟨ha, rfl⟩ hrs, rfl, by rw [List.flatMap_cons, List.flatMap_cons, hv]⟩

theorem mapM_eq_some_iff {f : α → Option β} {l : List α} {l' : List β} :
    l.mapM f = some l' ↔ List.Forall₂ (fun a b => f a = some b) l l' := by
  induction l generalizing l' with
  | nil => cases l' <;> simp
  | cons a l ih =>
    rw [List.mapM_cons, Option.bind_eq_bind, Option.bind_eq_some_iff, List.forall₂_cons_left_iff]
    constructor
    · rintro ⟨b, hb, h⟩
      obtain ⟨bs, hbs, h⟩ := Option.bind_eq_some_iff.mp h
      cases h
      exact ⟨b, bs, hb, ih.mp hbs, rfl⟩
    · rintro ⟨b, bs, hb, hbs, rfl⟩
      exact ⟨b, hb, Option.bind_eq_some_iff.mpr ⟨bs, ih.mpr hbs, rfl⟩⟩

/-- The first element of a list that is at fault has this fault. -/
def First (fault : α → ε → Prop) (l : List α) (e : ε) : Prop :=
  ∃ before a after, l = before ++ a :: after ∧ (∀ b ∈ before, ∀ e', ¬ fault b e') ∧ fault a e

variable {fault : α → ε → Prop} {e : ε}

theorem first_nil : ¬ First fault [] e := by
  rintro ⟨before, a, after, hl, -⟩
  cases before <;> cases hl

theorem first_cons_iff {a : α} {l : List α} :
    First fault (a :: l) e ↔ fault a e ∨ (∀ e', ¬ fault a e') ∧ First fault l e := by
  constructor
  · rintro ⟨before, b, after, hl, hbefore, hb⟩
    cases before with
    | nil =>
      cases hl
      exact .inl hb
    | cons a' before =>
      cases hl
      obtain ⟨ha, hbefore⟩ := List.forall_mem_cons.mp hbefore
      exact .inr ⟨ha, before, b, after, rfl, hbefore, hb⟩
  · rintro (ha | ⟨ha, before, b, after, rfl, hbefore, hb⟩)
    · exact ⟨[], a, l, rfl, by simp, ha⟩
    · exact ⟨a :: before, b, after, rfl, List.forall_mem_cons.mpr ⟨ha, hbefore⟩, hb⟩

/-- There is a first element at fault if there is any. -/
theorem exists_first_iff {l : List α} : (∃ e, First fault l e) ↔ ∃ a ∈ l, ∃ e, fault a e := by
  induction l with
  | nil => simp [first_nil]
  | cons a l ih =>
    simp only [first_cons_iff, exists_or, exists_and_left, ih, List.exists_mem_cons_iff]
    by_cases ha : ∃ e, fault a e
    · simp [ha]
    · simp [not_exists.mp ha]

theorem forall_not_first_iff {l : List α} : (∀ e, ¬ First fault l e) ↔ ∀ a ∈ l, ∀ e, ¬ fault a e := by
  have hexists : (∃ e, First fault l e) ↔ ∃ a ∈ l, ∃ e, fault a e := exists_first_iff
  simpa using not_congr hexists

theorem first_append_iff {l l' : List α} :
    First fault (l ++ l') e ↔ First fault l e ∨ (∀ a ∈ l, ∀ e', ¬ fault a e') ∧ First fault l' e := by
  induction l with
  | nil => simp [first_nil]
  | cons a l ih =>
    rw [List.cons_append, first_cons_iff, first_cons_iff, ih, List.forall_mem_cons]
    tauto

/-- The first fault of lists one after the other is that of the first list with a fault. -/
theorem first_flatMap_iff {γ : Type} {f : γ → List α} {l : List γ} :
    First fault (l.flatMap f) e ↔ First (fun c => First fault (f c)) l e := by
  induction l with
  | nil => simp [first_nil]
  | cons c l ih => rw [List.flatMap_cons, first_append_iff, first_cons_iff, ih, forall_not_first_iff]

theorem exists_eq_ok_iff {x : Except ε β} : (∃ b, x = .ok b) ↔ ∀ e, x ≠ .error e := by
  cases x <;> simp

/-- If the elements of a list fail as the first fault of their parts says, so does the list. -/
theorem mapM_eq_error_iff_first {γ : Type} {f : γ → Except ε β} {parts : γ → List α}
    (hf : ∀ c e, f c = .error e ↔ First fault (parts c) e) {l : List γ} :
    l.mapM f = .error e ↔ First fault (l.flatMap parts) e := by
  have hparts : (fun c => First fault (parts c)) = fun c e => f c = .error e := by
    funext c e
    exact propext (hf c e).symm
  rw [first_flatMap_iff, hparts]
  simp only [mapM_eq_error_iff, exists_eq_ok_iff]
  rfl

end Outcome

/-! ### Keys -/

section Keys

variable {α β : Type} [BEq α] [LawfulBEq α]

/-- Looking up a key finds only what the list holds. -/
theorem mem_of_lookup {l : List (α × β)} {k : α} {v : β} (h : l.lookup k = some v) : (k, v) ∈ l := by
  obtain ⟨l₁, l₂, rfl, -⟩ := List.lookup_eq_some_iff.mp h
  exact List.mem_append_right _ (List.mem_cons_self ..)

/-- Looking up a key finds what the list holds, if its keys differ. -/
theorem lookup_of_mem {l : List (α × β)} (hl : (l.map Prod.fst).Nodup) {k : α} {v : β} (h : (k, v) ∈ l) :
    l.lookup k = some v := by
  obtain ⟨l₁, l₂, rfl⟩ := List.append_of_mem h
  refine List.lookup_eq_some_iff.mpr ⟨l₁, l₂, rfl, fun p hp => ?_⟩
  rw [List.map_append, List.nodup_append] at hl
  have hne : p.1 ≠ k := hl.2.2 p.1 (List.mem_map_of_mem hp) k (by simp)
  simpa using fun hk : k = p.1 => hne hk.symm

/-- Looking up a key finds nothing if and only if the list has no such key. -/
theorem lookup_eq_none_iff_notMem {l : List (α × β)} {k : α} : l.lookup k = none ↔ k ∉ l.map Prod.fst := by
  rw [List.lookup_eq_none_iff]
  constructor
  · intro h hk
    obtain ⟨p, hp, rfl⟩ := List.mem_map.mp hk
    simpa using h p hp
  · intro h p hp
    have hne : p.1 ≠ k := fun heq => h (heq ▸ List.mem_map_of_mem hp)
    simpa using hne.symm

end Keys

/-- A search for the only element with a property finds it. -/
theorem find?_eq_some_iff_of_unique {α : Type} {l : List α} {p : α → Bool} {a : α} (ha : a ∈ l)
    (huniq : ∀ x ∈ l, p x → p a → x = a) : l.find? p = some a ↔ p a := by
  refine ⟨List.find?_some, fun hpa => ?_⟩
  cases hx : l.find? p with
  | none => exact absurd hpa (List.find?_eq_none.mp hx a ha)
  | some x => rw [huniq x (List.mem_of_find?_eq_some hx) (List.find?_some hx) hpa]

/-- A search gives the same on lists whose elements give the same one by one. -/
theorem findSome?_eq_of_forall₂ {α β γ : Type} {f : α → Option γ} {g : β → Option γ} {l : List α} {l' : List β}
    (h : List.Forall₂ (fun a b => f a = g b) l l') : l.findSome? f = l'.findSome? g := by
  induction h with
  | nil => rfl
  | cons hab _ ih => rw [List.findSome?_cons, List.findSome?_cons, hab, ih]

/-- A search that looks at one feature gives the same on lists with the same features. -/
theorem findSome?_eq_of_map {α β γ : Type} {feature : α → γ} {f : α → Option β}
    (hf : ∀ a a', feature a = feature a' → f a = f a') {l l' : List α} (h : l.map feature = l'.map feature) :
    l.findSome? f = l'.findSome? f := by
  have hfeatures : List.Forall₂ (fun a a' => feature a = feature a') l l' := by
    rw [← List.forall₂_eq_eq_eq, List.forall₂_map_left_iff, List.forall₂_map_right_iff] at h
    exact h
  exact findSome?_eq_of_forall₂ (hfeatures.imp hf)

theorem findSome?_filter {α β : Type} (p : α → Bool) (f : α → Option β) (l : List α) :
    (l.filter p).findSome? f = l.findSome? fun a => if p a then f a else none := by
  induction l with
  | nil => rfl
  | cons a l ih =>
    rw [List.filter_cons, List.findSome?_cons, ← ih]
    by_cases ha : p a
    · simp [ha, List.findSome?_cons]
    · simp [ha]

end PoseLang

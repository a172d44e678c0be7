import PoseLang.Proofs.Document.Checked

/-!
# What is wrong with a document

A document that cannot be checked has a clause that its bone has no limit for, or a statement that drives one axis
twice. `Document.sites` lists all clauses of a document, each behind those of its statement that come before it, and
`Site.Fault` says of one clause what is wrong with it there. Neither mentions the loops of the check, its sets of axes
or its warnings.

What is proved:

* behind clauses that were taken in, a clause is refused for its fault and for nothing else
  (`clause_check_eq_fault_iff`), so a statement is refused for its first fault (`foldlM_check_eq_error_iff`);
* so is a document, with its poses, statements and clauses in order, and it has a fault if and only if one of its
  statements offends (`check_firstFault`).
-/

namespace PoseLang

/-- A clause at its place: on a bone, behind other clauses of its statement. -/
structure Site where
  bone : Bone
  earlier : List Clause
  clause : Clause

/-- What is wrong with a clause: the bone has no limit for it; or it has one, and a clause before it in the statement
drives the same axis. -/
inductive Site.Fault : Site → CompileError → Prop
  | unsupported {b : Bone} {earlier : List Clause} {c : Clause} : b.limit? c.action c.direction = none →
      Fault ⟨b, earlier, c⟩ (.unsupported b c.action c.direction c.span.location)
  | conflict {b : Bone} {earlier : List Clause} {c c' : Clause} {x : Axis} :
      (b.limit? c.action c.direction).isSome → c.axis? = some x → c' ∈ earlier → c'.axis? = some x →
      Fault ⟨b, earlier, c⟩ (.conflict b x c.span.location)

/-- The places of some clauses behind others. -/
def sitesBehind (b : Bone) (earlier : List Clause) : List Clause → List Site
  | [] => []
  | c :: cs => ⟨b, earlier, c⟩ :: sitesBehind b (earlier ++ [c]) cs

/-- The clauses of a statement at their places. -/
def Statement.sites (s : Statement) : List Site := sitesBehind s.bone [] s.clauses

/-- The clauses of a document at their places, pose by pose and statement by statement. -/
def Document.sites (D : Document) : List Site := D.poses.flatMap fun p => p.2.statements.flatMap Statement.sites

/-- The statement has a clause without a limit, or two clauses that drive one axis. -/
def Statement.Offends (s : Statement) : Prop :=
  (∃ c ∈ s.clauses, s.bone.limit? c.action c.direction = none) ∨
    ∃ c c', [c, c'].Sublist s.clauses ∧ c.Clashes c'

section

variable {pose : String} {b : Bone} {c : Clause} {cs : List Clause} {acc : AxisSet × List Warning} {e : CompileError}

/-- A clause is refused for what is wrong with it behind the clauses that were taken in. -/
theorem clause_check_eq_fault_iff (hcs : b.Allows cs) (hacc : acc.1.Holds b cs) :
    c.check pose b acc = .error e ↔ Site.Fault ⟨b, cs, c⟩ e := by
  rw [clause_check_eq_error_iff]
  constructor
  · rintro (⟨hlimit, rfl⟩ | ⟨limit, x, sign, hlimit, haxis, hinsert, rfl⟩)
    · exact .unsupported hlimit
    · obtain ⟨c', hc', hx⟩ := (hacc.exists_get?_iff hcs).mp (AxisSet.insert?_eq_none_iff.mp hinsert)
      exact .conflict (by rw [hlimit]; rfl) (by simp [Clause.axis?, haxis]) hc' hx
  · intro hfault
    cases hfault with
    | unsupported hlimit => exact .inl ⟨hlimit, rfl⟩
    | @conflict _ _ _ c' x hlimit hx hc' hx' =>
      obtain ⟨limit, hlimit⟩ := Option.isSome_iff_exists.mp hlimit
      obtain ⟨y, sign, haxis⟩ := exists_axis hlimit
      obtain rfl : y = x := by simpa [Clause.axis?, haxis] using hx
      have hinsert : acc.1.insert? y ⟨sign, c.cut limit⟩ = none :=
        AxisSet.insert?_eq_none_iff.mpr ((hacc.exists_get?_iff hcs).mpr ⟨c', hc', hx'⟩)
      exact .inr ⟨limit, y, sign, hlimit, haxis, hinsert, rfl⟩

theorem sitesBehind_append (b : Bone) (earlier cs cs' : List Clause) :
    sitesBehind b earlier (cs ++ cs') = sitesBehind b earlier cs ++ sitesBehind b (earlier ++ cs) cs' := by
  induction cs generalizing earlier with
  | nil => simp [sitesBehind]
  | cons c cs ih => simp [sitesBehind, ih]

/-- The clauses of a statement are refused for the first fault among them. -/
theorem foldlM_check_eq_error_iff : cs.foldlM (Clause.check pose b) (.empty, []) = .error e ↔
    First Site.Fault (sitesBehind b [] cs) e := by
  induction cs using List.reverseRecOn generalizing e with
  | nil => exact ⟨nofun, fun h => (first_nil h).elim⟩
  | append_singleton cs c ih =>
    have htaken : (∀ site ∈ sitesBehind b [] cs, ∀ e, ¬ site.Fault e) ↔
        ∃ acc, cs.foldlM (Clause.check pose b) (.empty, []) = .ok acc := by
      rw [exists_eq_ok_iff, ← forall_not_first_iff]
      exact forall_congr' fun e => not_congr ih.symm
    rw [foldlM_check_concat, bind_eq_error_iff, sitesBehind_append, first_append_iff, htaken, ← ih]
    refine or_congr_right ?_
    simp only [sitesBehind, List.nil_append, first_cons_iff, first_nil, and_false, or_false]
    constructor
    · rintro ⟨acc, hacc, hc⟩
      obtain ⟨hcs, hholds, -⟩ := of_foldlM_check hacc
      exact ⟨⟨acc, hacc⟩, (clause_check_eq_fault_iff hcs hholds).mp hc⟩
    · rintro ⟨⟨acc, hacc⟩, hfault⟩
      obtain ⟨hcs, hholds, -⟩ := of_foldlM_check hacc
      exact ⟨acc, hacc, (clause_check_eq_fault_iff hcs hholds).mpr hfault⟩

end

/-! ### Statements, poses, documents -/

theorem statement_check_eq_error_iff {key : String} {s : Statement} {e : CompileError} :
    s.check key = .error e ↔ First Site.Fault s.sites e := by
  obtain ⟨b, deed, span⟩ := s
  cases deed with
  | reset => exact ⟨nofun, fun h => (first_nil h).elim⟩
  | actions cs =>
    refine Iff.trans (bind_eq_error_iff_left ?_) ?_
    · exact fun _ => nofun
    · exact foldlM_check_eq_error_iff

theorem pose_check_eq_error_iff {key : String} {p : Pose} {e : CompileError} :
    p.check key = .error e ↔ First Site.Fault (p.statements.flatMap Statement.sites) e := by
  refine Iff.trans (bind_eq_error_iff_left ?_) (mapM_eq_error_iff_first fun s e => ?_)
  · exact fun _ => nofun
  · exact statement_check_eq_error_iff

theorem document_check_eq_error_iff {D : Document} {e : CompileError} :
    D.check = .error e ↔ First Site.Fault D.sites e := by
  refine Iff.trans (bind_eq_error_iff_left ?_) (mapM_eq_error_iff_first fun p e => ?_)
  · exact fun _ => nofun
  · refine Iff.trans (bind_eq_error_iff_left ?_) pose_check_eq_error_iff
    exact fun _ => nofun

/-- A statement offends if and only if its bone does not allow its clauses. -/
theorem offends_iff {s : Statement} : s.Offends ↔ ¬ s.bone.Allows s.clauses := by
  rw [Bone.allows_iff, List.pairwise_iff_forall_sublist, not_and_or]
  unfold Statement.Offends
  simp

/-- A statement offends if and only if something is wrong with one of its clauses. -/
theorem exists_fault_iff {s : Statement} : (∃ site ∈ s.sites, ∃ e, site.Fault e) ↔ s.Offends := by
  have hallows : s.bone.Allows s.clauses ↔
      ∃ acc, s.clauses.foldlM (Clause.check "" s.bone) (.empty, []) = .ok acc :=
    ⟨exists_foldlM_check, fun ⟨_, hacc⟩ => (of_foldlM_check hacc).1⟩
  rw [offends_iff, hallows, exists_eq_ok_iff, ← exists_first_iff]
  simp only [ne_eq, not_forall, not_not, foldlM_check_eq_error_iff]
  rfl

/-- **A document is refused for its first fault.** Checking fails if and only if a statement of a pose offends, and the
error is about the first clause with which something is wrong: that the bone has no limit for it, or else that
its axis was driven before. There is no other error. -/
theorem check_firstFault (D : Document) :
    ((∃ e, D.check = .error e) ↔ ∃ p ∈ D.poses, ∃ s ∈ p.2.statements, s.Offends) ∧
    (∀ e, D.check = .error e ↔ First Site.Fault D.sites e) ∧
    ∀ e, D.check = .error e →
      (∃ b a d l, e = .unsupported b a d l) ∨ ∃ b x l, e = .conflict b x l := by
  refine ⟨?_, fun e => document_check_eq_error_iff, ?_⟩
  · simp only [document_check_eq_error_iff, exists_first_iff, ← exists_fault_iff, Document.sites, List.mem_flatMap]
    constructor
    · rintro ⟨site, ⟨p, hp, s, hs, hsite⟩, hfault⟩
      exact ⟨p, hp, s, hs, site, hsite, hfault⟩
    · rintro ⟨p, hp, s, hs, site, hsite, hfault⟩
      exact ⟨site, ⟨p, hp, s, hs, hsite⟩, hfault⟩
  · intro e h
    obtain ⟨-, site, -, -, -, hfault⟩ := document_check_eq_error_iff.mp h
    cases hfault with
    | unsupported => exact .inl ⟨_, _, _, _, rfl⟩
    | conflict => exact .inr ⟨_, _, _, rfl⟩

/-- A statement that bends the head both ways, before one with a motion that does not exist. -/
def twistedDocument : Document where
  poses := [("twist", ⟨"twist", [
    ⟨.head, .actions [⟨.turn, .left, 30, ⟨19, 23, 2, 6⟩⟩, ⟨.bend, .forward, 100, ⟨33, 37, 2, 20⟩⟩,
      ⟨.bend, .backward, 5, ⟨51, 55, 2, 38⟩⟩], ⟨14, 18, 2, 1⟩⟩,
    ⟨.head, .actions [⟨.bend, .left, 5, ⟨75, 79, 3, 6⟩⟩], ⟨70, 74, 3, 1⟩⟩], ⟨0, 5, 1, 1⟩⟩)]

theorem check_twistedDocument : twistedDocument.check = .error (.conflict .head .pitch ⟨2, 38⟩) ∧
    First Site.Fault twistedDocument.sites (.conflict .head .pitch ⟨2, 38⟩) ∧
    ∃ p ∈ twistedDocument.poses, ∃ s ∈ p.2.statements, s.Offends := by
  have hcheck : twistedDocument.check = .error (.conflict .head .pitch ⟨2, 38⟩) := by decide +kernel
  obtain ⟨hoffends, hfirst, -⟩ := check_firstFault twistedDocument
  exact ⟨hcheck, (hfirst _).mp hcheck, hoffends.mp ⟨_, hcheck⟩⟩

end PoseLang

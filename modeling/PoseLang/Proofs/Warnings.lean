import PoseLang.Proofs.Compile
import PoseLang.Proofs.Document.Places

/-!
# Warnings come in the order of the text

A text that compiles has one warning for each clause that goes beyond the limit of its bone. What such a clause is can
be read off the blocks of the text (`Overshoots`), and there it does not matter what is played. The warnings are
found pose by pose and clause by clause, so their places are some of the places of the clauses (`sublist_warnings`),
which ascend as those of all tokens do.
-/

namespace PoseLang

open Grammar Lexical

/-- A clause of the blocks that goes beyond the limit of its bone, and the warning about it. -/
inductive Overshoots (bs : List Block) : Clause → Warning → Prop
  | mk {p : Pose} {s : Statement} {c : Clause} {limit : Float} : p ∈ poses bs → s ∈ p.statements → c ∈ s.clauses →
      s.bone.limit? c.action c.direction = some limit → limit < c.magnitude →
      Overshoots bs c ⟨p.name, s.bone, c.action, c.direction, c.magnitude, limit, c.span.location⟩

theorem warning?_eq_some_iff {pose : String} {b : Bone} {c : Clause} {w : Warning} :
    c.warning? pose b = some w ↔ ∃ limit, b.limit? c.action c.direction = some limit ∧ limit < c.magnitude ∧
      ⟨pose, b, c.action, c.direction, c.magnitude, limit, c.span.location⟩ = w := by
  unfold Clause.warning?
  cases b.limit? c.action c.direction <;> simp

section

variable {bs : List Block}

theorem warnings_document (bs : List Block) :
    (document bs).warnings = (poses bs).flatMap fun p => p.warnings p.name := by
  simp [Document.warnings, document, List.flatMap_map]

/-- The warnings are those about the clauses that go too far. -/
theorem mem_warnings_iff {w : Warning} : w ∈ (document bs).warnings ↔ ∃ c, Overshoots bs c w := by
  simp only [warnings_document, Pose.warnings, Statement.warnings, List.mem_flatMap, List.mem_filterMap,
    warning?_eq_some_iff]
  constructor
  · rintro ⟨p, hp, s, hs, c, hc, limit, hlimit, hover, rfl⟩
    exact ⟨c, .mk hp hs hc hlimit hover⟩
  · rintro ⟨c, ⟨hp, hs, hc, hlimit, hover⟩⟩
    exact ⟨_, hp, _, hs, c, hc, _, hlimit, hover, rfl⟩

theorem Overshoots.location {c : Clause} {w : Warning} (h : Overshoots bs c w) : w.location = c.span.location := by
  cases h
  rfl

/-- A clause that goes too far stands in the text. -/
theorem Overshoots.exists_isClause {ts : List Token} (hbs : Many IsBlock ts bs) {c : Clause} {w : Warning}
    (h : Overshoots bs c w) : ∃ us, us <:+: ts ∧ IsClause us c := by
  cases h with
  | mk hp hs hc => exact Grammar.exists_isClause hbs hp hs hc

/-! ### Order -/

theorem sublist_clauseWarnings (pose : String) (b : Bone) (cs : List Clause) :
    ((cs.filterMap (Clause.warning? pose b)).map (·.location)).Sublist (cs.map (·.span.location)) := by
  induction cs with
  | nil => exact .slnil
  | cons c cs ih =>
    cases hw : c.warning? pose b with
    | none =>
      rw [List.filterMap_cons_none hw]
      exact ih.cons _
    | some w =>
      obtain ⟨limit, -, -, rfl⟩ := warning?_eq_some_iff.mp hw
      rw [List.filterMap_cons_some hw]
      exact ih.cons_cons _

/-- The places of the warnings are some of the places of the clauses, in their order. -/
theorem sublist_warnings (bs : List Block) : ((document bs).warnings.map (·.location)).Sublist
    (((poses bs).flatMap Pose.clauses).map (·.span.location)) := by
  simp only [warnings_document, Pose.warnings, Pose.clauses, List.map_flatMap]
  refine List.Sublist.flatMap_right _ fun p _ => List.Sublist.flatMap_right _ fun s _ => ?_
  exact sublist_clauseWarnings p.name s.bone s.clauses

/-- The places of the warnings ascend. -/
theorem pairwise_warnings {before cs : List Char} {ts : List Token} (hts : Splits before cs ts)
    (hbs : Many IsBlock ts bs) : ((document bs).warnings.map (·.location)).Pairwise Location.Before := by
  have htokens : (ts.map (·.span.location)).Pairwise Location.Before := List.pairwise_map.mpr hts.pairwise_before
  exact htokens.sublist ((sublist_warnings bs).trans (sublist_clauses hbs))

end

/-- Where places ascend, there is one element at each. -/
theorem filter_location_eq {ws : List Warning} (h : (ws.map (·.location)).Pairwise Location.Before) {w : Warning}
    (hw : w ∈ ws) : ws.filter (·.location = w.location) = [w] := by
  obtain ⟨front, back, rfl⟩ := List.append_of_mem hw
  obtain ⟨-, hback, hfront⟩ := List.pairwise_append.mp (List.pairwise_map.mp h)
  have hnone : ∀ v ∈ front, v.location ≠ w.location := fun v hv => (hfront v hv w List.mem_cons_self).ne
  have hnone' : ∀ v ∈ back, v.location ≠ w.location := fun v hv => (List.rel_of_pairwise_cons hback hv).ne.symm
  rw [List.filter_append, List.filter_cons_of_pos (by simp), List.filter_eq_nil_iff.mpr (by simpa using hnone),
    List.filter_eq_nil_iff.mpr (by simpa using hnone')]
  rfl

/-- **Warnings come in the order of the text.** Let a text compile. The places of the warnings ascend strictly, by lines
and then by columns. Each is the place of the first word of a clause that goes beyond the limit of its bone, and at
the place of every such clause there is one warning, the one about it, whatever is played. -/
theorem compile_warnings_ascend {config : Config} {source : String} {out : Compiled}
    (h : compile config source = .ok out) :
    ∃ ts bs, IsSplit source ts ∧ Many IsBlock ts.list bs ∧ parse config.limits source = .ok (document bs) ∧
      (out.warnings.map (·.location)).Pairwise Location.Before ∧
      (∀ w ∈ out.warnings, ∃ c, Overshoots bs c w ∧ ∃ us, us <:+: ts.list ∧ IsClause us c) ∧
      ∀ c w, Overshoots bs c w → out.warnings.filter (·.location = c.span.location) = [w] := by
  obtain ⟨D, C, t, e, -, hD, hC, -, -, rfl⟩ := compile_eq_ok_iff.mp h
  obtain ⟨ts, hts, bs, hbs, -, rfl⟩ := denotes_of_parse hD
  have hsplit := lex_eq_ok_iff.mp (tokenize_eq_ok.mp hts)
  have hascend := pairwise_warnings hsplit.tokens hbs
  obtain ⟨-, -, hwarnings⟩ := document_check_eq_ok_iff.mp hC
  simp only [hwarnings]
  refine ⟨ts, bs, hsplit, hbs, hD, hascend, fun w hw => ?_, fun c w hover => ?_⟩
  · obtain ⟨c, hover⟩ := mem_warnings_iff.mp hw
    exact ⟨c, hover, hover.exists_isClause hbs⟩
  · rw [← hover.location]
    exact filter_location_eq hascend (mem_warnings_iff.mpr ⟨c, hover⟩)

/-- Two poses that nothing plays. Three of the four clauses go too far, and one of these is on a line of its own. -/
def boundlessSource : String :=
  "@pose p\x7bhead bend forward 99, turn left 9;\x7d\n@pose q\x7bneck turn left 99,\nbend forward 99;\x7d"

theorem compile_boundlessSource :
    ∃ out, compile {} boundlessSource = .ok out ∧ out.warnings.map (·.location) = [⟨1, 14⟩, ⟨2, 14⟩, ⟨3, 1⟩] := by
  have hstages : (do
      let D ← parse {} boundlessSource
      let C ← D.check
      let t ← C.timeline {}
      return (C.warnings.map (·.location), t) : Except CompileError (List Location × Timeline)) =
        .ok ([⟨1, 14⟩, ⟨2, 14⟩, ⟨3, 1⟩], ⟨[]⟩) := by decide +kernel
  obtain ⟨D, hD, h⟩ := bind_eq_ok_iff.mp hstages
  obtain ⟨C, hC, h⟩ := bind_eq_ok_iff.mp h
  obtain ⟨t, ht, h⟩ := bind_eq_ok_iff.mp h
  obtain ⟨hwarnings, rfl⟩ := Prod.mk.inj (Except.ok.inj h)
  have hconfig : ({} : Config).check = .ok () := by decide +kernel
  have hframes : (Timeline.mk []).frames defaultFrameRate = .ok [] := by decide +kernel
  have hbones : (Timeline.mk []).bones = [] := by decide +kernel
  have hmodel : nameField .model Layout.modelNameSize "" = .ok (Layout.padded Layout.modelNameSize []) :=
    nameField_eq_ok_iff.2 ⟨[], rfl, Nat.zero_le _, rfl⟩
  obtain ⟨e, he⟩ := exists_encode hconfig hframes (by rw [hbones]; decide) (by rw [hbones]; decide) hmodel
    (by rw [hbones]; exact nofun)
  exact ⟨_, compile_eq_ok_iff.mpr ⟨D, C, _, e, hconfig, hD, hC, ht, he, rfl⟩, hwarnings⟩

theorem warnings_boundlessSource :
    ∃ out ts bs, compile {} boundlessSource = .ok out ∧
      out.warnings.map (·.location) = [⟨1, 14⟩, ⟨2, 14⟩, ⟨3, 1⟩] ∧
      IsSplit boundlessSource ts ∧ Many IsBlock ts.list bs ∧
      (out.warnings.map (·.location)).Pairwise Location.Before ∧
      ∀ w ∈ out.warnings, ∃ c, Overshoots bs c w ∧ out.warnings.filter (·.location = c.span.location) = [w] := by
  obtain ⟨out, hout, hplaces⟩ := compile_boundlessSource
  obtain ⟨ts, bs, hsplit, hbs, -, hascend, hclause, hone⟩ := compile_warnings_ascend hout
  refine ⟨out, ts, bs, hout, hplaces, hsplit, hbs, hascend, fun w hw => ?_⟩
  obtain ⟨c, hover, -⟩ := hclause w hw
  exact ⟨c, hover, hone c w hover⟩

end PoseLang

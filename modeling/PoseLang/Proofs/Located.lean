import PoseLang.Proofs.Compile
import PoseLang.Proofs.Document.Blame
import PoseLang.Proofs.Timeline.Assembly
import PoseLang.Proofs.Timeline.Track
import PoseLang.Proofs.Token.Malformed

/-!
# Errors point at what they are about

An error of the compiler that has a place points there at the lexeme that cannot be read, or at the token that it is
about (`IsAbout`), or at the end of the text. The lexer and the reader know where they are. What is checked later is
found in the document, and the document has kept the places of the tokens that begin its clauses, keyframes and entries.

What is proved:

* an error of the check is about the action of a clause (`isAbout_of_check`);
* an error of the timeline is about the time of a keyframe or about an entry of `main`, although keyframes are sorted
  before they are looked at (`isAbout_of_track`, `isAbout_of_timeline`);
* what is wrong with a configuration or cannot be written has no place (`unlocated_check`, `unlocated_encode`).
-/

namespace PoseLang

open Grammar Lexical

/-! ### The first tokens of phrases -/

section

variable {ts : List Token}

theorem Grammar.IsClause.exists_cons {c : Clause} (h : IsClause ts c) : ∃ t us, ts = t :: us ∧ t.span = c.span := by
  cases h
  exact ⟨_, _, rfl, rfl⟩

theorem Grammar.IsKeyframe.exists_cons {k : Keyframe} (h : IsKeyframe ts k) :
    ∃ t us, ts = t :: us ∧ t.span = k.span := by
  cases h
  exact ⟨_, _, rfl, rfl⟩

theorem Grammar.IsEntry.exists_cons {e : PlayEntry} (h : IsEntry ts e) : ∃ t us, ts = t :: us ∧ t.span = e.span := by
  cases h
  exact ⟨_, _, rfl, rfl⟩

end

/-! ### Clauses -/

theorem clause_mem_of_mem_sitesBehind {b : Bone} {earlier cs : List Clause} {site : Site}
    (h : site ∈ sitesBehind b earlier cs) : site.clause ∈ cs := by
  induction cs generalizing earlier with
  | nil => cases h
  | cons c cs ih =>
    rcases List.mem_cons.mp h with rfl | h
    · exact List.mem_cons_self
    · exact List.mem_cons_of_mem c (ih h)

theorem Site.Fault.location {site : Site} {e : CompileError} (h : site.Fault e) :
    e.location? = some site.clause.span.location := by
  cases h <;> rfl

section Document

variable {ts : List Token} {bs : List Block} {e : CompileError}

theorem isAbout_of_check (hbs : Many IsBlock ts bs) (h : (document bs).check = .error e) :
    ∃ t, IsAbout ts e (some t) ∧ e.location? = some t.span.location := by
  obtain ⟨front, site, back, hsites, -, hfault⟩ := document_check_eq_error_iff.mp h
  have hsite : site ∈ (document bs).sites := by simp [hsites]
  obtain ⟨entry, hentry, hsite⟩ := List.mem_flatMap.mp hsite
  obtain ⟨p, hp, rfl⟩ := List.mem_map.mp hentry
  obtain ⟨s, hs, hsite⟩ := List.mem_flatMap.mp hsite
  obtain ⟨us, hus, hclause⟩ := exists_isClause hbs hp hs (clause_mem_of_mem_sitesBehind hsite)
  obtain ⟨t, us, rfl, hspan⟩ := hclause.exists_cons
  exact ⟨t, .fault hbs hp hs hsite hfault hus hclause, by rw [hfault.location, hspan]⟩

/-! ### Keyframes and entries -/

/-- The second keyframe at a time stands behind another one. -/
theorem IsFirstRepeat.exists_sublist {ks : List Keyframe} {k : Keyframe} (h : IsFirstRepeat ks k) :
    ∃ j, [j, k].Sublist ks ∧ j.time = k.time := by
  have hsublist : (ks.filter (·.time = k.time)).Sublist ks := List.filter_sublist
  have hsecond := h.second
  cases hfilter : ks.filter (·.time = k.time) with
  | nil => simp [hfilter] at hsecond
  | cons j rest =>
    cases rest with
    | nil => simp [hfilter] at hsecond
    | cons k' rest =>
      obtain rfl : k' = k := by simpa [hfilter] using hsecond
      have hj : j ∈ ks.filter (·.time = k'.time) := by simp [hfilter]
      rw [hfilter] at hsublist
      refine ⟨j, List.Sublist.trans ?_ hsublist, by simpa using (List.mem_filter.mp hj).2⟩
      exact (List.nil_sublist rest).cons_cons k' |>.cons_cons j

theorem isAbout_of_track {a : Animation} {postures : List (String × Posture)} (hbs : Many IsBlock ts bs)
    (ha : a ∈ animations bs) (htime : ∀ k ∈ a.keyframes, IsMagnitude k.time)
    (hpostures : postures.map Prod.fst = (poses bs).map (·.name)) (h : a.track postures = .error e) :
    ∃ t, IsAbout ts e (some t) ∧ e.location? = some t.span.location := by
  -- times are looked at before poses
  by_cases hnodup : (a.keyframes.map (·.time)).Nodup
  · have hunknown : ∃ k ∈ a.keyframes, k.pose ∉ postures.map Prod.fst := by
      by_contra hall
      push Not at hall
      obtain ⟨track, htrack⟩ := (exists_track_iff htime).mpr ⟨hnodup, hall⟩
      cases h.symm.trans htrack
    obtain ⟨k, hfirst, htrack⟩ := track_of_unknown htime hnodup hunknown
    obtain rfl := Except.error.inj (h.symm.trans htrack)
    obtain ⟨us, hus, hkeyframe⟩ := exists_isKeyframe hbs ha hfirst.mem
    obtain ⟨t, us, rfl, hspan⟩ := hkeyframe.exists_cons
    exact ⟨t, .unknownPose hbs ha hfirst.mem (hpostures ▸ hfirst.unknown) hus hkeyframe, by rw [hspan]; rfl⟩
  · obtain ⟨k, hrepeat, htrack⟩ := track_of_not_nodup htime hnodup
    obtain rfl := Except.error.inj (h.symm.trans htrack)
    obtain ⟨us, hus, hkeyframe⟩ := exists_isKeyframe hbs ha hrepeat.mem
    obtain ⟨t, us, rfl, hspan⟩ := hkeyframe.exists_cons
    obtain ⟨j, hsublist, hj⟩ := hrepeat.exists_sublist
    exact ⟨t, .duplicateTime hbs ha hsublist hj hus hkeyframe, by rw [hspan]; rfl⟩

theorem map_fst_postures {C : Checked} (hC : (document bs).check = .ok C) :
    C.postures.map Prod.fst = (poses bs).map (·.name) := by
  obtain ⟨-, hposes, -⟩ := document_check_eq_ok_iff.mp hC
  have hkeys : (document bs).poses.map Prod.fst = C.poses.map Prod.fst :=
    map_eq_map_of_forall₂ (hposes.imp fun p q hq => hq.1.symm)
  simpa [Checked.postures, document, Function.comp_def] using hkeys.symm

theorem isAbout_of_timeline {limits : InputLimits} {C : Checked} {l : Location} (hbs : Many IsBlock ts bs)
    (hwellFormed : (document bs).WellFormed) (htime : ∀ a ∈ animations bs, ∀ k ∈ a.keyframes, IsMagnitude k.time)
    (hC : (document bs).check = .ok C) (h : C.timeline limits = .error e) (hl : e.location? = some l) :
    ∃ t, IsAbout ts e (some t) ∧ t.span.location = l := by
  obtain ⟨⟨hanimations, hmain⟩, -, -⟩ := document_check_eq_ok_iff.mp hC
  rw [Checked.timeline, hanimations, hmain,
    assemble_eq_error_iff hwellFormed.animationKey hwellFormed.animations_nodup] at h
  rcases h with ⟨front, a, back, hsplit, -, htrack⟩ | ⟨-, front, entry, back, _, hsplit, -, hrefused⟩
  · have ha : a ∈ (document bs).animations := by simp [hsplit]
    obtain ⟨animation, hanimation, rfl⟩ := List.mem_map.mp ha
    obtain ⟨t, ht, hlocation⟩ :=
      isAbout_of_track hbs hanimation (htime animation hanimation) (map_fst_postures hC) htrack
    exact ⟨t, ht, Option.some.inj (hlocation.symm.trans hl)⟩
  · cases hrefused with
    | unknown hunknown =>
      obtain ⟨es, hes, hentry⟩ : ∃ es ∈ mains bs, entry ∈ es := by
        have hentry : entry ∈ (mains bs).head?.getD [] := by
          rw [show (mains bs).head?.getD [] = front ++ entry :: back from hsplit]
          simp
        cases hmains : mains bs with
        | nil => simp [hmains] at hentry
        | cons es rest => exact ⟨es, List.mem_cons_self, by simpa [hmains] using hentry⟩
      obtain ⟨us, hus, hphrase⟩ := exists_isEntry hbs hes hentry
      obtain ⟨t, us, rfl, hspan⟩ := hphrase.exists_cons
      have hname : entry.animation ∉ (animations bs).map (·.name) := by
        simpa [document, Function.comp_def] using hunknown
      exact ⟨t, .unknownAnimation hbs hes hentry hname hus hphrase, by rw [hspan]; exact Option.some.inj hl⟩
    | full => cases hl

end Document

/-! ### Errors without a place -/

/-- Every error that the computation can end with has no place. -/
def Unlocated {α : Type} (x : Except CompileError α) : Prop := ∀ e, x = .error e → e.location? = none

theorem unlocated_ok {α : Type} (a : α) : Unlocated (.ok a) := by
  intro e h
  cases h

theorem Unlocated.bind {α β : Type} {x : Except CompileError α} {f : α → Except CompileError β} (hx : Unlocated x)
    (hf : ∀ a, Unlocated (f a)) : Unlocated (x >>= f) := by
  intro e h
  rcases bind_eq_error_iff.mp h with h | ⟨a, -, h⟩
  · exact hx e h
  · exact hf a e h

theorem unlocated_unless {α : Type} {p : Prop} [Decidable p] {e : CompileError} {x : Except CompileError α}
    (he : e.location? = none) (hx : Unlocated x) : Unlocated (if p then .error e else x) := by
  intro e' h
  split at h
  · cases h
    exact he
  · exact hx e' h

theorem Unlocated.foldlM {α β : Type} {f : β → α → Except CompileError β} (hf : ∀ b a, Unlocated (f b a)) (as : List α)
    (b : β) : Unlocated (as.foldlM f b) := by
  induction as generalizing b with
  | nil => exact unlocated_ok b
  | cons a as ih =>
    rw [List.foldlM_cons]
    exact (hf b a).bind ih

theorem unlocated_check (config : Config) : Unlocated config.check :=
  unlocated_unless rfl (unlocated_unless rfl (unlocated_ok ()))

theorem unlocated_frames (t : Timeline) (rate : Float) : Unlocated (t.frames rate) := by
  intro e h
  unfold Timeline.frames at h
  split at h
  · cases h
  · cases h
    rfl

theorem unlocated_nameField (field : NameField) (size : Nat) (text : String) :
    Unlocated (nameField field size text) := by
  intro e h
  unfold nameField at h
  split at h
  · cases h
    rfl
  · split at h
    · cases h
      rfl
    · cases h

theorem unlocated_encode (config : Config) (t : Timeline) : Unlocated (t.encode config) := by
  have hbone (frames : List Nat) (out : ByteArray) (b : Bone) : Unlocated (appendBone t frames out b) :=
    (unlocated_nameField _ _ _).bind fun _ => unlocated_ok _
  refine (unlocated_check config).bind fun _ => (unlocated_frames t config.frameRate).bind fun frames => ?_
  refine unlocated_unless rfl (unlocated_unless rfl ?_)
  exact (unlocated_nameField _ _ _).bind fun _ => (Unlocated.foldlM (hbone frames) _ _).bind fun _ => unlocated_ok _

/-! ### The whole way -/

/-- What an error about a text points at: a lexeme that cannot be read, behind what can be read in front of it; or the
token that the error is about, or the end of the text. -/
inductive PointsAt (source : String) : CompileError → Location → Prop
  | lexeme {before rest message : String} {tokens : List Token} {fault : LexFault} : source = before ++ rest →
      Front rest.toList [] before.toList tokens → Malformed rest.toList fault message →
      PointsAt source (.lexical fault (placeAfter before.toList).location) (placeAfter before.toList).location
  | token {ts : Tokens} {e : CompileError} {t : Option Token} : IsSplit source ts → (∀ u ∈ t, u ∈ ts.list) →
      IsAbout ts.list e t → PointsAt source e (ts.placeOf t)

section Whole

variable {source : String} {ts : Tokens} {e : CompileError} {l : Location}

theorem PointsAt.of_isAbout (hts : tokenize source = .ok ts) {t : Option Token} (h : IsAbout ts.list e t)
    (hplace : ts.placeOf t = l) : PointsAt source e l := by
  subst hplace
  refine .token (lex_eq_ok_iff.mp (tokenize_eq_ok.mp hts)) ?_ h
  rintro u rfl
  exact h.mem

theorem pointsAt_of_parse {limits : InputLimits} (h : parse limits source = .error e) (hl : e.location? = some l) :
    PointsAt source e l := by
  unfold parse at h
  split at h
  · cases h
    cases hl
  · split at h
    next ts hts =>
      obtain ⟨t, ht, hplace⟩ := isAbout_of_readDocument h hl
      exact .of_isAbout hts ht hplace
    next e' he' =>
      obtain rfl := Except.error.inj h
      obtain ⟨before, rest, tokens, fault, message, hsource, hfront, hmalformed, rfl⟩ := exists_malformed he'
      obtain rfl := Option.some.inj hl
      exact .lexeme hsource hfront hmalformed

/-- **Errors point at what they are about.** Let a text fail to compile, with an error that has a place. The place is
that of the lexeme that cannot be read, or of the token of the text that the error is about, or the end of the text. -/
theorem compile_error_located {config : Config} (h : compile config source = .error e) (hl : e.location? = some l) :
    PointsAt source e l := by
  rcases bind_eq_error_iff.mp h with hconfig | ⟨⟨⟩, -, h⟩
  · rw [unlocated_check config e hconfig] at hl
    cases hl
  rcases bind_eq_error_iff.mp h with hparse | ⟨D, hD, h⟩
  · exact pointsAt_of_parse hparse hl
  obtain ⟨ts, hts, hdenotes⟩ := denotes_of_parse hD
  have hwellFormed := hdenotes.wellFormed
  obtain ⟨bs, hbs, -, rfl⟩ := hdenotes
  rcases bind_eq_error_iff.mp h with hcheck | ⟨C, hC, h⟩
  · obtain ⟨t, ht, hplace⟩ := isAbout_of_check hbs hcheck
    exact .of_isAbout hts ht (Option.some.inj (hplace.symm.trans hl))
  rcases bind_eq_error_iff.mp h with htimeline | ⟨timeline, -, h⟩
  · have htime : ∀ a ∈ animations bs, ∀ k ∈ a.keyframes, IsMagnitude k.time := fun a ha k hk =>
      isMagnitude_time hD (List.mem_map_of_mem ha) hk
    obtain ⟨t, ht, hplace⟩ := isAbout_of_timeline hbs hwellFormed htime hC htimeline hl
    exact .of_isAbout hts ht hplace
  · rcases bind_eq_error_iff.mp h with hencode | ⟨_, -, h⟩
    · rw [unlocated_encode config timeline e hencode] at hl
      cases hl
    · cases h

end Whole

/-- A pose behind another one. On its last line a statement turns the head again. -/
def turningSource : String := "@pose p\x7bneck reset;\x7d\n@pose q\x7bhead turn left 9,\nturn right 9;\x7d"

theorem pointsAt_turningSource :
    compile {} turningSource = .error (.conflict .head .yaw ⟨3, 1⟩) ∧
      PointsAt turningSource (.conflict .head .yaw ⟨3, 1⟩) ⟨3, 1⟩ := by
  have hchecked : (parse {} turningSource >>= Document.check) = .error (.conflict .head .yaw ⟨3, 1⟩) := by
    decide +kernel
  have hconfig : ({} : Config).check = .ok () := by decide +kernel
  have hcompile : compile {} turningSource = .error (.conflict .head .yaw ⟨3, 1⟩) := by
    refine bind_eq_error_iff.mpr (.inr ⟨(), hconfig, ?_⟩)
    rcases bind_eq_error_iff.mp hchecked with hparse | ⟨D, hD, hcheck⟩
    · exact bind_eq_error_iff.mpr (.inl hparse)
    · exact bind_eq_error_iff.mpr (.inr ⟨D, hD, bind_eq_error_iff.mpr (.inl hcheck)⟩)
  exact ⟨hcompile, compile_error_located hcompile rfl⟩

end PoseLang

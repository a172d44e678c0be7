import PoseLang.Proofs.Compile

/-!
# Limits

The limits of a configuration are caps and nothing else. Take a text that compiles under some limits,
and put other limits in their place. If the text and its motion are within the new limits the result
is the same; if they are not, the answer is that something is too large, whatever else could be said
about the text.

A stage of the compiler is `Capped` by a condition if it gives its old answer when the condition holds,
and "too large" when it does not. Conditions of stages in a row add up (`Capped.bind`). What is proved:

* each stage with limits is capped by its own counts: reading (`parse_capped`), playing
  (`timeline_capped`), writing (`encode_capped`);
* so compiling is capped by all counts together (`compile_capped`), and larger limits keep every
  result (`compile_limits`).
-/

namespace PoseLang

/-- The answer is that something is too large. -/
def IsTooLarge {α : Type} (x : Except CompileError α) : Prop :=
  ∃ what limit, x = .error (.tooLarge what limit)

/-- The answer is `a` if the condition holds, and else that something is too large. -/
def Capped {α : Type} (fits : Prop) (x : Except CompileError α) (a : α) : Prop :=
  (fits → x = .ok a) ∧ (¬ fits → IsTooLarge x)

namespace Capped

variable {α β : Type} {fits fits' : Prop} {x : Except CompileError α} {f : α → Except CompileError β} {a : α} {b : β}

/-- Computations in a row: the first condition that fails gives the answer. -/
theorem bind (hx : Capped fits x a) (hf : Capped fits' (f a) b) : Capped (fits ∧ fits') (x >>= f) b := by
  by_cases h : fits
  · rw [hx.1 h]
    exact ⟨fun h' => hf.1 h'.2, fun h' => hf.2 fun hfits' => h' ⟨h, hfits'⟩⟩
  · obtain ⟨what, limit, hlarge⟩ := hx.2 h
    rw [hlarge]
    exact ⟨fun h' => absurd h'.1 h, fun _ => ⟨what, limit, rfl⟩⟩

/-- A computation without a cap adds no condition. -/
theorem after (hx : x = .ok a) (hf : Capped fits (f a) b) : Capped fits (x >>= f) b := by
  rw [hx]
  exact hf

theorem congr (h : fits ↔ fits') (hx : Capped fits x a) : Capped fits' x a :=
  ⟨fun h' => hx.1 (h.mpr h'), fun h' => hx.2 fun hfits => h' (h.mp hfits)⟩

/-- An answer shows that its condition holds. -/
theorem fits_of_ok {a' : α} (hx : Capped fits x a) (h : x = .ok a') : fits := by
  by_contra hfits
  obtain ⟨what, limit, hlarge⟩ := hx.2 hfits
  rw [h] at hlarge
  cases hlarge

end Capped

variable {L L' : InputLimits}

/-! ### Reading -/

/-- With other limits the same step is made, or something is too large. -/
def Relimited (s s' : Step) : Prop :=
  ∀ r, s' = .next r → s = .next r ∨ ∃ what limit, s = .reject (.tooLarge what limit)

/-- A cap in front of a step. -/
theorem Relimited.guard {n n' m : Nat} {what : Quantity} {e : CompileError} {s : Step} :
    Relimited (if n ≤ m then .reject (.tooLarge what n) else s) (if n' ≤ m then .reject e else s) := by
  intro r h
  split at h
  · cases h
  · by_cases hfull : n ≤ m
    · exact .inr ⟨what, n, if_pos hfull⟩
    · exact .inl ((if_neg hfull).trans h)

/-- One token. Only the steps that end a pose, an animation, a keyframe or an entry know a limit. -/
theorem step_relimited (r : Reader) (t : Token) : Relimited (r.step L t) (r.step L' t) := by
  obtain ⟨b, _ | s⟩ := r
  · exact fun _ h => .inl h
  · obtain ⟨kind, span⟩ := t
    cases s with
    | poseBody pose =>
      cases kind with
      | closeBrace => exact .guard
      | _ => exact fun _ h => .inl h
    | animationBody animation =>
      cases kind with
      | closeBrace => exact .guard
      | _ => exact fun _ h => .inl h
    | keyframeEnd animation keyframe =>
      cases kind with
      | semicolon => exact .guard
      | _ => exact fun _ h => .inl h
    | entryEnd done entry =>
      cases kind with
      | semicolon => exact .guard
      | _ => exact fun _ h => .inl h
    | _ => cases kind <;> exact fun _ h => .inl h

/-- All tokens. -/
theorem run_relimited {stop : Position} {r : Reader} {ts : List Token} {D : Document}
    (h : (r.run L' stop ts).1 = .ok D) : (r.run L stop ts).1 = .ok D ∨ IsTooLarge (r.run L stop ts).1 := by
  induction ts generalizing r with
  | nil => exact .inl h
  | cons t ts ih =>
    rw [Reader.run] at h ⊢
    cases hstep : r.step L' t with
    | next r' =>
      rw [hstep] at h
      rcases step_relimited r t r' hstep with hsame | ⟨what, limit, hlarge⟩
      · rw [hsame]
        exact ih h
      · rw [hlarge]
        exact .inr ⟨what, limit, rfl⟩
    | refuse e =>
      rw [hstep] at h
      cases h
    | reject e =>
      rw [hstep] at h
      cases h

/-- Reading is capped by the size of the text and the counts of the document. -/
theorem parse_capped {source : String} {D : Document} (h : parse L' source = .ok D) :
    Capped (source.utf8ByteSize ≤ L.sourceBytes ∧ D.Within L) (parse L source) D := by
  unfold parse at h ⊢
  split at h
  · cases h
  · by_cases hsize : L.sourceBytes < source.utf8ByteSize
    · rw [if_pos hsize]
      exact ⟨fun hfits => absurd hfits.1 (Nat.not_le.mpr hsize), fun _ => ⟨_, _, rfl⟩⟩
    · rw [if_neg hsize]
      cases htokens : tokenize source with
      | error e =>
        rw [htokens] at h
        cases h
      | ok ts =>
        rw [htokens] at h
        have hdenotes := ((readDocument_iff ts).mp h).1
        refine ⟨fun hfits => (readDocument_iff ts).mpr ⟨hdenotes, hfits.2⟩, fun hfits => ?_⟩
        rcases run_relimited h with hsame | hlarge
        · exact absurd ⟨Nat.le_of_not_lt hsize, ((readDocument_iff ts).mp hsame).2⟩ hfits
        · exact hlarge

/-! ### Playing and writing -/

/-- Playing adds keyframes to those that were played. -/
theorem size_le_of_play {tracks : List Track} {done : Array PlayedKeyframe} {start : Float}
    {es : List PlayEntry} {t : Timeline} (h : play L tracks done start es = .ok t) :
    done.size ≤ t.keyframes.length := by
  induction es generalizing done start with
  | nil =>
    cases h
    exact Nat.le_refl _
  | cons e es ih =>
    obtain ⟨track, -, -, h⟩ := play_cons_eq_ok h
    have hsize := ih h
    rw [size_append_playedFrom] at hsize
    omega

/-- Playing entries is capped by the keyframes of the whole timeline: the sums on the way are smaller. -/
theorem play_capped {tracks : List Track} {done : Array PlayedKeyframe} {start : Float}
    {es : List PlayEntry} {t : Timeline} (hdone : done.size ≤ L.timelineKeyframes)
    (h : play L' tracks done start es = .ok t) :
    Capped (t.keyframes.length ≤ L.timelineKeyframes) (play L tracks done start es) t := by
  induction es generalizing done start with
  | nil =>
    cases h
    exact ⟨fun _ => rfl, fun hfits => absurd hdone hfits⟩
  | cons e es ih =>
    obtain ⟨track, htrack, -, h⟩ := play_cons_eq_ok h
    have hsize := size_le_of_play h
    rw [size_append_playedFrom] at hsize
    rw [play, htrack]
    by_cases hfull : L.timelineKeyframes < done.size + track.keyframes.length
    · simp only [if_pos hfull]
      exact ⟨fun hfits => absurd (Nat.le_trans hsize hfits) (Nat.not_le.mpr hfull), fun _ => ⟨_, _, rfl⟩⟩
    · simp only [if_neg hfull]
      refine ih ?_ h
      rw [size_append_playedFrom]
      exact Nat.le_of_not_lt hfull

theorem timeline_capped {C : Checked} {t : Timeline} (h : C.timeline L' = .ok t) :
    Capped (t.keyframes.length ≤ L.timelineKeyframes) (C.timeline L) t := by
  obtain ⟨tracks, htracks, h⟩ := bind_eq_ok_iff.mp h
  exact .after htracks (play_capped (Nat.zero_le _) h)

variable {config : Config}

/-- Writing is capped by the number of records. -/
theorem encode_capped {t : Timeline} {e : EncodedMotion} (hcheck : { config with limits := L }.check = .ok ())
    (h : t.encode { config with limits := L' } = .ok e) :
    Capped (e.recordCount ≤ L.outputRecords) (t.encode { config with limits := L }) e := by
  have hcount : e.recordCount = t.bones.length * e.frames.length := by
    have he := encode_eq_ok h
    rw [he.recordCount, he.bones]
  have hframes' := (encode_eq_ok h).frames
  obtain ⟨⟨⟩, -, h⟩ := bind_eq_ok_iff.mp h
  obtain ⟨frames, hframes, h⟩ := bind_eq_ok_iff.mp h
  obtain rfl := Except.ok.inj (hframes'.symm.trans hframes)
  refine .after hcheck (.after hframes ?_)
  rw [hcount]
  simp only at h ⊢
  split at h
  · cases h
  · refine ⟨fun hfits => ?_, fun hfits => ?_⟩
    · rw [if_neg (Nat.not_lt.mpr hfits)]
      exact h
    · rw [if_pos (Nat.lt_of_not_le hfits)]
      exact ⟨_, _, rfl⟩

/-! ### Compiling -/

/-- A text, the document it says and the motion that it gives have no more of anything than the limits
allow. -/
structure Fits (limits : InputLimits) (source : String) (D : Document) (out : Compiled) : Prop where
  source : source.utf8ByteSize ≤ limits.sourceBytes
  document : D.Within limits
  timeline : out.frameCount ≤ limits.timelineKeyframes
  records : out.recordCount ≤ limits.outputRecords

/-- Compiling is capped by all counts. -/
theorem compile_capped {source : String} {out : Compiled} (hcheck : { config with limits := L }.check = .ok ())
    (h : compile { config with limits := L' } source = .ok out) :
    ∃ D, parse L' source = .ok D ∧ Capped (Fits L source D out) (compile { config with limits := L } source) out := by
  obtain ⟨D, C, t, e, -, hD, hC, ht, he, rfl⟩ := compile_eq_ok_iff.mp h
  have hlength : e.frames.length = t.keyframes.length := (encode_eq_ok he).length_frames
  have hdone {x : Compiled} : Capped True (pure x) x := ⟨fun _ => rfl, fun h => absurd trivial h⟩
  refine ⟨D, hD, .congr ?_ (.after hcheck ((parse_capped hD).bind (.after hC
    ((timeline_capped ht).bind ((encode_capped hcheck he).bind hdone)))))⟩
  rw [← hlength]
  constructor
  · rintro ⟨⟨hsource, hdocument⟩, htimeline, hrecords, -⟩
    exact ⟨hsource, hdocument, htimeline, hrecords⟩
  · rintro ⟨hsource, hdocument, htimeline, hrecords⟩
    exact ⟨⟨hsource, hdocument⟩, htimeline, hrecords, trivial⟩

theorem Fits.mono {source : String} {D : Document} {out : Compiled}
    (hle : List.Forall₂ (· ≤ ·) L.toList L'.toList) (h : Fits L source D out) : Fits L' source D out := by
  simp only [InputLimits.toList, List.forall₂_cons, List.forall₂_nil_left_iff, and_true] at hle
  obtain ⟨hsource, hposes, hanimations, hkeyframes, hentries, htimeline, hrecords⟩ := hle
  exact
    { source := h.source.trans hsource
      document :=
        { poses := h.document.poses.trans hposes
          animations := h.document.animations.trans hanimations
          keyframes := fun a ha => (h.document.keyframes a ha).trans hkeyframes
          main := h.document.main.trans hentries }
      timeline := h.timeline.trans htimeline
      records := h.records.trans hrecords }

/-- **Limits are exact caps and never change a result.** Let two valid configurations differ only in their
limits. What compiles under limits compiles to the same under larger ones. What compiles under some
limits compiles to the same under any others that its counts are within, and is too large under all
that some count exceeds. -/
theorem compile_limits (config : Config) (L L' : InputLimits) (source : String) (out : Compiled)
    (hL : { config with limits := L }.check = .ok ()) (hL' : { config with limits := L' }.check = .ok ()) :
    (List.Forall₂ (· ≤ ·) L.toList L'.toList → compile { config with limits := L } source = .ok out →
      compile { config with limits := L' } source = .ok out) ∧
    (compile { config with limits := L' } source = .ok out →
      ∃ D, parse L' source = .ok D ∧
        (Fits L source D out → compile { config with limits := L } source = .ok out) ∧
        (¬ Fits L source D out →
          ∃ what limit, compile { config with limits := L } source = .error (.tooLarge what limit))) := by
  refine ⟨fun hle h => ?_, compile_capped hL⟩
  obtain ⟨D, hD, hcapped⟩ := compile_capped hL h
  obtain ⟨D', hD', hcapped'⟩ := compile_capped hL' h
  obtain rfl := Except.ok.inj (hD.symm.trans hD')
  exact hcapped'.1 ((hcapped.fits_of_ok h).mono hle)

/-- The two keyframes of a text are within a limit of two, and are too many for a limit of one. -/
theorem compile_raisingSource_limits :
    ∃ out, compile { limits := { timelineKeyframes := 2 } } raisingSource = .ok out ∧
      compile {} raisingSource = .ok out ∧
      ∃ what limit,
        compile { limits := { timelineKeyframes := 1 } } raisingSource = .error (.tooLarge what limit) := by
  obtain ⟨out, hout, hframes, -⟩ := compile_raisingSource
  have hdefault := compile_limits {} {} {} raisingSource out (by decide +kernel) (by decide +kernel)
  have htwo := compile_limits {} { timelineKeyframes := 2 } {} raisingSource out (by decide +kernel) (by decide +kernel)
  have hone := compile_limits {} { timelineKeyframes := 1 } {} raisingSource out (by decide +kernel) (by decide +kernel)
  obtain ⟨D, hD, -, hlarge⟩ := hdefault.2 hout
  obtain ⟨D₂, hD₂, hsame₂, -⟩ := htwo.2 hout
  obtain ⟨D₁, -, -, hlarge₁⟩ := hone.2 hout
  obtain rfl := Except.ok.inj (hD.symm.trans hD₂)
  have hfits : Fits {} raisingSource D out := by
    by_contra hfits
    obtain ⟨what, limit, hlarge⟩ := hlarge hfits
    cases hout.symm.trans hlarge
  have hok := hsame₂
    { source := hfits.source
      document := ⟨hfits.document.poses, hfits.document.animations, hfits.document.keyframes, hfits.document.main⟩
      timeline := hframes.le
      records := hfits.records }
  refine ⟨out, hok, htwo.1 (by decide) hok, hlarge₁ fun hfits => ?_⟩
  have hle : out.frameCount ≤ 1 := hfits.timeline
  omega

end PoseLang

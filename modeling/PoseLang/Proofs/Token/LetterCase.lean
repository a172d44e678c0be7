import PoseLang.Action
import PoseLang.Proofs.Token.Lexer

/-!
# Letters in another case

If some ASCII letters of a text are put in the other case, the text is cut into tokens at the same places. Each token
keeps its kind, up to the case of letters in its word, and a token none of whose characters changed is the same token.

What is proved:

* a character of the same letter is the same character, or both are letters (`eq_or_isAlpha`), so it belongs to the same
  classes of characters, and takes the reader of a text as far (`step_recase`);
* so blanks and comments stay (`IsTrivia.recase`), and a lexeme spells a token of the same letters (`Spells.recase`) and
  stays the longest one (`Spells.longest_recase`);
* so the whole text is cut at the same places (`Splits.recase`).
-/

namespace PoseLang

namespace Lexical

/-! ### Characters -/

section

variable {c c' : Char}

theorem toNat_toLower (c : Char) :
    c.toLower.toNat = if 65 ≤ c.toNat ∧ c.toNat ≤ 90 then c.toNat + 32 else c.toNat := by
  have hupper : (c.val ≥ 'A'.val ∧ c.val ≤ 'Z'.val) ↔ 65 ≤ c.toNat ∧ c.toNat ≤ 90 := by
    simp only [ge_iff_le, UInt32.le_iff_toNat_le]
    rfl
  unfold Char.toLower
  simp only [hupper]
  split
  next h =>
    have hadd : (c.val + ('a'.val - 'A'.val)).toNat = c.toNat + 32 := by
      rw [UInt32.toNat_add]
      show (c.toNat + 32) % 2 ^ 32 = _
      omega
    exact hadd
  · rfl

/-- Only letters have another case. -/
theorem eq_or_isAlpha (h : c'.toLower = c.toLower) : c' = c ∨ c'.isAlpha = true ∧ c.isAlpha = true := by
  have hnat : c'.toLower.toNat = c.toLower.toNat := congrArg Char.toNat h
  rw [toNat_toLower, toNat_toLower] at hnat
  rw [isAlpha_iff, isAlpha_iff, ← Char.toNat_inj]
  split_ifs at hnat <;> omega

theorem eq_of_not_isAlpha (hc : c.isAlpha = false) (h : c'.toLower = c.toLower) : c' = c := by
  rcases eq_or_isAlpha h with rfl | ⟨-, hc'⟩
  · rfl
  · rw [hc'] at hc
    cases hc

/-- What is the same for all letters is the same for a letter in the other case. -/
theorem eq_of_forall_isAlpha {α : Type} {f : Char → α} (a : α) (hf : ∀ d : Char, d.isAlpha = true → f d = a)
    (h : c'.toLower = c.toLower) : f c' = f c := by
  rcases eq_or_isAlpha h with rfl | ⟨hc', hc⟩
  · rfl
  · rw [hf c' hc', hf c hc]

theorem isNameStart_of_isAlpha (h : c.isAlpha = true) : isNameStart c = true := by simp [isNameStart, h]

theorem isNameStart_recase (h : c'.toLower = c.toLower) : isNameStart c' = isNameStart c :=
  eq_of_forall_isAlpha true (fun _ => isNameStart_of_isAlpha) h

theorem isNameChar_recase (h : c'.toLower = c.toLower) : isNameChar c' = isNameChar c :=
  eq_of_forall_isAlpha true (fun d hd => by simp [isNameChar, Char.isAlphanum, hd]) h

theorem isDigit_recase (h : c'.toLower = c.toLower) : c'.isDigit = c.isDigit :=
  eq_of_forall_isAlpha false (fun _ hd => not_isDigit_of_isNameStart (isNameStart_of_isAlpha hd)) h

theorem isBlank_recase (h : c'.toLower = c.toLower) : isBlank c' = isBlank c :=
  eq_of_forall_isAlpha false
    (fun _ hd => not_isBlank_of_bounds (bounds_of_isNameStart (.inl (isNameStart_of_isAlpha hd)))) h

/-- A letter is one byte and ends no line, in either case. -/
theorem step_recase (p : Position) (h : c'.toLower = c.toLower) : p.step c' = p.step c := by
  refine eq_of_forall_isAlpha ⟨p.offset + 1, p.line, p.column + 1⟩ (fun d hd => ?_) h
  have hbounds := isAlpha_iff.mp hd
  have hline : d ≠ '\n' := by
    rintro rfl
    exact absurd hd (by decide)
  have hsize : d.utf8Size = 1 := by
    rw [Char.utf8Size, if_pos]
    rw [UInt32.le_iff_toNat_le]
    show d.toNat ≤ 127
    omega
  rw [Position.step, if_neg hline, hsize]

end

/-! ### Characters in a row -/

/-- The second text is the first, up to the case of letters. -/
def SameLetters (cs cs' : List Char) : Prop := cs'.map Char.toLower = cs.map Char.toLower

namespace SameLetters

variable {cs cs' ds ds' all : List Char} {c : Char}

theorem of_cons (h : SameLetters (c :: cs) all) :
    ∃ c' cs', all = c' :: cs' ∧ c'.toLower = c.toLower ∧ SameLetters cs cs' :=
  List.map_eq_cons_iff.mp h

theorem of_append (h : SameLetters (cs ++ ds) all) :
    ∃ cs' ds', all = cs' ++ ds' ∧ SameLetters cs cs' ∧ SameLetters ds ds' := by
  rw [SameLetters, List.map_append] at h
  exact List.map_eq_append_iff.mp h

theorem append (h : SameLetters cs cs') (h' : SameLetters ds ds') : SameLetters (cs ++ ds) (cs' ++ ds') := by
  rw [SameLetters, List.map_append, List.map_append, h, h']

theorem length_eq (h : SameLetters cs cs') : cs'.length = cs.length := by
  simpa using congrArg List.length h

theorem exists_mem (h : SameLetters cs cs') {c' : Char} (hc' : c' ∈ cs') : ∃ c ∈ cs, c.toLower = c'.toLower := by
  have hmem : c'.toLower ∈ cs.map Char.toLower := h ▸ List.mem_map_of_mem hc'
  exact List.mem_map.mp hmem

theorem exists_head (h : SameLetters cs cs') {c' : Char} (hc' : c' ∈ cs'.head?) :
    ∃ c ∈ cs.head?, c'.toLower = c.toLower := by
  cases cs with
  | nil =>
    obtain rfl : cs' = [] := List.map_eq_nil_iff.mp h
    cases hc'
  | cons c cs =>
    obtain ⟨d, ds, rfl, hd, -⟩ := h.of_cons
    cases hc'
    exact ⟨c, rfl, hd⟩

section

variable {p : Char → Bool} (hp : ∀ {c c' : Char}, c'.toLower = c.toLower → p c' = p c)

include hp

/-- A class that does not tell the cases of a letter apart has all characters of the text again. -/
theorem forall_class {b : Bool} (h : SameLetters cs cs') (hall : ∀ c ∈ cs, p c = b) : ∀ c ∈ cs', p c = b := by
  intro c' hc'
  obtain ⟨c, hc, hlower⟩ := h.exists_mem hc'
  rw [hp hlower.symm, hall c hc]

theorem forall_head_class {b : Bool} (h : SameLetters cs cs') (hall : ∀ c ∈ cs.head?, p c = b) :
    ∀ c ∈ cs'.head?, p c = b := by
  intro c' hc'
  obtain ⟨c, hc, hlower⟩ := h.exists_head hc'
  rw [hp hlower, hall c hc]

end

/-- A text without letters is the same text. -/
theorem eq_of_forall_not_isAlpha (h : SameLetters cs cs') (hall : ∀ c ∈ cs, c.isAlpha = false) : cs' = cs := by
  induction cs generalizing cs' with
  | nil => exact List.map_eq_nil_iff.mp h
  | cons c cs ih =>
    obtain ⟨d, ds, rfl, hd, htail⟩ := h.of_cons
    rw [eq_of_not_isAlpha (hall c List.mem_cons_self) hd,
      ih htail fun e he => hall e (List.mem_cons_of_mem c he)]

/-- The place after the text is the same. -/
theorem placeAfter_eq (h : SameLetters cs cs') : placeAfter cs' = placeAfter cs := by
  have hadvance (p : Position) : p.advance cs' = p.advance cs := by
    induction cs generalizing cs' p with
    | nil =>
      obtain rfl : cs' = [] := List.map_eq_nil_iff.mp h
      rfl
    | cons c cs ih =>
      obtain ⟨d, ds, rfl, hd, htail⟩ := h.of_cons
      rw [Position.advance_cons, Position.advance_cons, step_recase p hd, ih htail]
  rw [← advance_start, ← advance_start, hadvance]

theorem sameWord_ofList (h : SameLetters cs cs') : sameWord (String.ofList cs) (String.ofList cs') := by
  simpa [sameWord] using h.symm

end SameLetters

/-! ### Blanks and comments -/

theorem IsTrivia.recase {rest rest' gap gap' : List Char} (h : IsTrivia rest gap) (hgap : SameLetters gap gap')
    (hrest : SameLetters rest rest') : IsTrivia rest' gap' := by
  induction h generalizing gap' with
  | nil =>
    obtain rfl : gap' = [] := List.map_eq_nil_iff.mp hgap
    exact .nil
  | blank hc _ ih =>
    obtain ⟨c', more, rfl, hlower, hmore⟩ := hgap.of_cons
    exact .blank ((isBlank_recase hlower).trans hc) (ih hmore)
  | @comment opening body gap hopening hbody hstop _ ih =>
    obtain ⟨front, gap', rfl, hfront, hgap'⟩ := hgap.of_append
    obtain ⟨opening', body', rfl, hopening', hbody'⟩ := hfront.of_append
    obtain rfl : opening' = opening := by
      refine hopening'.eq_of_forall_not_isAlpha ?_
      simp only [List.mem_cons, List.not_mem_nil, or_false] at hopening
      rcases hopening with rfl | rfl <;> simp
    refine .comment hopening (fun hmem => ?_) (fun c' hc' => ?_) (ih hgap')
    · obtain ⟨c, hc, hlower⟩ := hbody'.exists_mem hmem
      obtain rfl := eq_of_not_isAlpha (by decide) hlower
      exact hbody hc
    · obtain ⟨c, hc, hlower⟩ := (hgap'.append hrest).exists_head hc'
      obtain rfl := hstop c hc
      exact eq_of_not_isAlpha (by decide) hlower

/-! ### Lexemes -/

/-- The same kind of token, up to the case of letters in its word. -/
inductive SameKind : TokenKind → TokenKind → Prop
  | keyword {w w' : String} : sameWord w w' → SameKind (.keyword w) (.keyword w')
  | ident {w w' : String} : sameWord w w' → SameKind (.ident w) (.ident w')
  | refl (kind : TokenKind) : SameKind kind kind

theorem IsWord.recase {word word' : List Char} (h : IsWord word) (hword : SameLetters word word') : IsWord word' := by
  refine ⟨?_, hword.forall_class isNameChar_recase h.2⟩
  rintro rfl
  exact h.1 (List.map_eq_nil_iff.mp hword.symm)

theorem IsName.recase {text text' : List Char} (h : IsName text) (htext : SameLetters text text') : IsName text' := by
  obtain ⟨hstart, hall⟩ := h
  obtain ⟨c', cs', rfl, hc, hcs⟩ := htext.of_cons
  exact .mk ((isNameStart_recase hc).trans hstart) (hcs.forall_class isNameChar_recase hall)

/-- A number has no letters. -/
theorem IsNumeral.recase {text text' : List Char} {q : ℚ} (h : IsNumeral text q) (htext : SameLetters text text') :
    text' = text := by
  have hdigit {c : Char} (hc : c.isDigit = true) : c.isAlpha = false := by
    by_contra halpha
    rw [not_isDigit_of_isNameStart (isNameStart_of_isAlpha (eq_true_of_ne_false halpha))] at hc
    cases hc
  refine htext.eq_of_forall_not_isAlpha fun c hc => ?_
  cases h with
  | whole hw => exact hdigit (hw.2 c hc)
  | point hw hf =>
    rcases List.mem_append.mp hc with hc | hc
    · exact hdigit (hw.2 c hc)
    · rcases List.mem_cons.mp hc with rfl | hc
      · decide
      · exact hdigit (hf.2 c hc)

theorem SameLetters.of_at {word text' : List Char} (h : SameLetters ('@' :: word) text') :
    ∃ word', text' = '@' :: word' ∧ SameLetters word word' := by
  obtain ⟨c', word', rfl, hc, hword⟩ := h.of_cons
  obtain rfl := eq_of_not_isAlpha (by decide) hc
  exact ⟨word', rfl, hword⟩

theorem SameLetters.of_mark {c : Char} {kind : TokenKind} (hc : mark? c = some kind) {text' : List Char}
    (h : SameLetters [c] text') : text' = [c] := by
  refine h.eq_of_forall_not_isAlpha fun d hd => ?_
  obtain rfl := List.mem_singleton.mp hd
  by_contra halpha
  rw [mark?_eq_none (.inl (isNameStart_of_isAlpha (eq_true_of_ne_false halpha)))] at hc
  cases hc

variable {text text' rest rest' : List Char} {kind : TokenKind}

/-- The lexeme spells a token of the same letters, and the same token if it is the same lexeme. -/
theorem Spells.recase (h : Spells text kind) (htext : SameLetters text text') :
    ∃ kind', Spells text' kind' ∧ SameKind kind kind' ∧ (text' = text → kind' = kind) := by
  cases h with
  | keyword hword =>
    obtain ⟨word', rfl, hsame⟩ := htext.of_at
    refine ⟨_, .keyword (hword.recase hsame), .keyword hsame.sameWord_ofList, ?_⟩
    rintro ⟨⟩
    rfl
  | ident hname => exact ⟨_, .ident (hname.recase htext), .ident htext.sameWord_ofList, by rintro rfl; rfl⟩
  | number hnumeral hvalue =>
    obtain rfl := hnumeral.recase htext
    exact ⟨_, .number hnumeral hvalue, .refl _, fun _ => rfl⟩
  | openBrace | closeBrace | colon | semicolon | comma =>
    obtain rfl := htext.of_mark rfl
    refine ⟨_, ?_, .refl _, fun _ => rfl⟩
    constructor

/-- The lexeme stays the longest one. -/
theorem Spells.longest_recase (h : Spells text kind) (hlongest : Longest text rest) (hpoint : '.' ∉ rest.head?)
    (htext : SameLetters text text') (hrest : SameLetters rest rest') : Longest text' rest' := by
  have hname (hall : ∀ c ∈ rest.head?, isNameChar c = false) : ∀ c ∈ rest'.head?, isNameChar c = false :=
    hrest.forall_head_class isNameChar_recase hall
  have hdigit (hall : ∀ c ∈ rest.head?, c.isDigit = false) : ∀ c ∈ rest'.head?, c.isDigit = false :=
    hrest.forall_head_class isDigit_recase hall
  cases h with
  | keyword hword =>
    obtain ⟨word', rfl, hsame⟩ := htext.of_at
    exact (longest_keyword_iff (hword.recase hsame)).mpr (hname ((longest_keyword_iff hword).mp hlongest))
  | ident hident => exact (longest_name_iff (hident.recase htext)).mpr (hname ((longest_name_iff hident).mp hlongest))
  | number hnumeral _ =>
    obtain rfl := hnumeral.recase htext
    cases hnumeral with
    | whole hw =>
      have hpoint' : '.' ∉ rest'.head? := by
        intro hmem
        obtain ⟨c, hc, hlower⟩ := hrest.exists_head hmem
        obtain rfl := eq_of_not_isAlpha (by decide) hlower.symm
        exact hpoint hc
      exact (longest_whole_iff hw hpoint').mpr (hdigit ((longest_whole_iff hw hpoint).mp hlongest))
    | point hw hf => exact (longest_point_iff hw hf).mpr (hdigit ((longest_point_iff hw hf).mp hlongest))
  | openBrace | closeBrace | colon | semicolon | comma =>
    rw [htext.of_mark rfl]
    exact longest_mark rfl

/-! ### The whole text -/

/-- The two texts differ in a character inside a stretch of the first one. -/
def DiffersIn (cs cs' : List Char) (span : Span) : Prop :=
  ∃ i, cs'[i]? ≠ cs[i]? ∧ span.start ≤ (placeAfter (cs.take i)).offset ∧ (placeAfter (cs.take i)).offset < span.stop

section

variable {front front' back back' : List Char}

theorem getElem?_middle {j : Nat} (h : j < text.length) :
    (front ++ text ++ back)[front.length + j]? = text[j]? := by
  rw [List.append_assoc, List.getElem?_append_right (Nat.le_add_right ..), Nat.add_sub_cancel_left,
    List.getElem?_append_left h]

/-- A character of a lexeme stands in the stretch of the lexeme. -/
theorem offset_middle {j : Nat} (h : j < text.length) :
    (spanOf front text).start ≤ (placeAfter ((front ++ text ++ back).take (front.length + j))).offset ∧
      (placeAfter ((front ++ text ++ back).take (front.length + j))).offset < (spanOf front text).stop := by
  have htake : (front ++ text ++ back).take (front.length + j) = front ++ text.take j := by
    rw [List.append_assoc, List.take_length_add_append, List.take_append_of_le_length h.le]
  have hdrop : 0 < (String.ofList (text.drop j)).utf8ByteSize := by
    refine utf8ByteSize_pos fun hnil => ?_
    have := List.drop_eq_nil_iff.mp hnil
    omega
  have hstop : (spanOf front text).stop =
      (placeAfter (front ++ text.take j)).offset + (String.ofList (text.drop j)).utf8ByteSize := by
    rw [← offset_append, List.append_assoc, List.take_append_drop]
    rfl
  rw [htake, hstop]
  refine ⟨?_, by omega⟩
  rw [offset_append]
  exact Nat.le_add_right ..

theorem differsIn_of_ne (hfront : front'.length = front.length) (htext : text'.length = text.length)
    (hne : text' ≠ text) : DiffersIn (front ++ text ++ back) (front' ++ text' ++ back') (spanOf front text) := by
  obtain ⟨j, hj⟩ : ∃ j, text'[j]? ≠ text[j]? := by
    by_contra hnone
    simp only [not_exists, not_not] at hnone
    exact hne (List.ext_getElem? hnone)
  have hlt : j < text.length := by
    by_contra hge
    rw [List.getElem?_eq_none (by omega), List.getElem?_eq_none (by omega)] at hj
    exact hj rfl
  refine ⟨front.length + j, ?_, offset_middle hlt⟩
  rw [getElem?_middle hlt, ← hfront, getElem?_middle (htext ▸ hlt)]
  exact hj

/-- If one lexeme of a text changes, the text changes in the stretch of the lexeme only. -/
theorem offset_of_ne (htext : text'.length = text.length) {i : Nat}
    (hne : (front ++ text' ++ back)[i]? ≠ (front ++ text ++ back)[i]?) :
    (spanOf front text).start ≤ (placeAfter ((front ++ text ++ back).take i)).offset ∧
      (placeAfter ((front ++ text ++ back).take i)).offset < (spanOf front text).stop := by
  by_cases hfront : i < front.length
  · refine absurd ?_ hne
    rw [List.append_assoc, List.append_assoc, List.getElem?_append_left hfront, List.getElem?_append_left hfront]
  · obtain ⟨j, rfl⟩ := Nat.exists_eq_add_of_le (Nat.le_of_not_lt hfront)
    by_cases hlt : j < text.length
    · exact offset_middle hlt
    · refine absurd ?_ hne
      have hlength : (front ++ text').length = (front ++ text).length := by simp [htext]
      have hle : (front ++ text).length ≤ front.length + j := by simp; omega
      rw [List.getElem?_append_right (hlength ▸ hle), List.getElem?_append_right hle, hlength]

end

/-- A token of the same letters in the same place, which is the same token if its characters are the same. -/
structure Recases (cs cs' : List Char) (t t' : Token) : Prop where
  span : t'.span = t.span
  kind : SameKind t.kind t'.kind
  differs : t' ≠ t → DiffersIn cs cs' t.span

/-- **The case of letters does not move a token.** A text of the same letters is cut at the same places into tokens of
the same letters, and a token changes only if a character inside it does. -/
theorem Splits.recase {before before' cs cs' : List Char} {tokens : List Token} (h : Splits before cs tokens)
    (hbefore : SameLetters before before') (hcs : SameLetters cs cs') :
    ∃ tokens', Splits before' cs' tokens' ∧
      List.Forall₂ (Recases (before ++ cs) (before' ++ cs')) tokens tokens' := by
  induction h generalizing before' cs' with
  | stop hgap => exact ⟨[], .stop (hgap.recase hcs rfl), .nil⟩
  | @token before gap text rest kind tokens hgap hspells hlongest hsplits ih =>
    obtain ⟨front', rest', rfl, hfront, hrest⟩ := hcs.of_append
    obtain ⟨gap', text', rfl, hgap', htext⟩ := hfront.of_append
    obtain ⟨kind', hspells', hkind, hsame⟩ := hspells.recase htext
    have hplace := hbefore.append hgap'
    obtain ⟨tokens', hsplits', htokens⟩ := ih (hplace.append htext) hrest
    have hspan : spanOf (before' ++ gap') text' = spanOf (before ++ gap) text := by
      rw [spanOf, spanOf, hplace.placeAfter_eq, (hplace.append htext).placeAfter_eq]
    refine ⟨⟨kind', spanOf (before' ++ gap') text'⟩ :: tokens', ?_, .cons ⟨hspan, hkind, fun hne => ?_⟩ ?_⟩
    · exact .token (hgap.recase hgap' (htext.append hrest)) hspells'
        (hspells.longest_recase hlongest hsplits.head?_ne_point htext hrest) hsplits'
    · have hdiffers : text' ≠ text := fun heq => hne (by rw [hsame heq, hspan])
      simpa using differsIn_of_ne hplace.length_eq htext.length_eq hdiffers
    · simpa using htokens

end Lexical

end PoseLang

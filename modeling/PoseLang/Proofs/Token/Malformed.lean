import PoseLang.Proofs.Token.Lexer

/-!
# Where no token can be read

A text that cannot be cut into tokens has a first place where no token begins. What stands there is of one of
four kinds (`Malformed`), and each has its own message. The text before this place is cut into tokens in front of
it (`Front`) just as it is cut if it ends there: nothing that was read depends on what could not be read.

What is proved:

* a lexeme is refused if and only if what stands there is malformed (`lexeme_eq_error_iff`);
* tokens in front of any text are tokens without it (`Front.splits`);
* the lexer fails at the malformed text behind the tokens that it can read, and nowhere else
  (`front_of_lexFrom`, `lexFrom_of_front`, `tokenize_eq_error_iff_malformed`).
-/

namespace PoseLang

namespace Lexical

/-! ### What cannot be read -/

/-- Digits and a point that no digit follows. -/
def Dangling (cs : List Char) : Prop :=
  ∃ whole rest, cs = whole ++ '.' :: rest ∧ IsDigits whole ∧ ∀ c ∈ rest.head?, c.isDigit = false

/-- Text that begins with no token, what is wrong with it, and how a message says so. -/
inductive Malformed : List Char → LexFault → String → Prop
  | missingKeyword {rest : List Char} : (∀ c ∈ rest.head?, isNameChar c = false) →
      Malformed ('@' :: rest) .missingKeyword "expected block keyword after '@'"
  | missingFraction {cs : List Char} : Dangling cs →
      Malformed cs .missingFraction "expected digits after decimal point"
  | outOfRange {text rest : List Char} {q : ℚ} : IsNumeral text q → Longest text rest → ¬ Dangling (text ++ rest) →
      (∀ value, ¬ RoundsTo q value) →
      Malformed (text ++ rest) (.outOfRange (String.ofList text))
        ("number '" ++ String.ofList text ++ "' is out of range")
  | unexpected {c : Char} {rest : List Char} : isBlank c = false → c ≠ '#' → (c = '/' → '/' ∉ rest.head?) →
      c ∉ ['\x7b', '\x7d', ':', ';', ','] → c ≠ '@' → c.isDigit = false → isNameStart c = false →
      Malformed (c :: rest) (.unexpected c) ("unexpected character '" ++ c.toString ++ "'")

/-- After the characters `before` and in front of `after`, the text is cut into these tokens. -/
inductive Front (after : List Char) : List Char → List Char → List Token → Prop
  | stop {before gap : List Char} : IsTrivia after gap → Front after before gap []
  | token {before gap text rest : List Char} {kind : TokenKind} {tokens : List Token} :
      IsTrivia (text ++ (rest ++ after)) gap → Spells text kind → Longest text (rest ++ after) →
      ¬ Dangling (text ++ (rest ++ after)) → Front after (before ++ gap ++ text) rest tokens →
      Front after before (gap ++ text ++ rest) (⟨kind, spanOf (before ++ gap) text⟩ :: tokens)

/-! ### Numbers -/

section Numbers

variable {whole fraction text rest : List Char}

/-- The digits of a dangling point end where the digits end. -/
theorem Dangling.head? {c : Char} (hw : ∀ d ∈ whole, d.isDigit = true) (hc : c.isDigit = false)
    (h : Dangling (whole ++ c :: rest)) : c = '.' ∧ ∀ d ∈ rest.head?, d.isDigit = false := by
  obtain ⟨w, r, heq, hdigits, hr⟩ := h
  obtain ⟨-, rfl, rfl⟩ := eq_of_point hw hdigits.2 hc heq
  exact ⟨rfl, hr⟩

/-- A point behind the longest digits would dangle. -/
theorem head?_ne_point_of_digits (hw : IsDigits whole) (hlongest : Longest whole rest)
    (hdangling : ¬ Dangling (whole ++ rest)) : '.' ∉ rest.head? := by
  intro hpoint
  obtain ⟨r, rfl⟩ := List.head?_eq_some_iff.mp hpoint
  refine hdangling ⟨whole, r, rfl, hw, fun d hd => ?_⟩
  by_contra hdigit
  obtain ⟨r, rfl⟩ := List.head?_eq_some_iff.mp hd
  have hlexeme : IsLexeme (whole ++ ['.', d]) := .number (.point hw ⟨by simp, by simpa using hdigit⟩)
  exact longest_iff.mp hlongest '.' [d] ⟨r, rfl⟩ hlexeme

theorem not_dangling_whole (hw : IsDigits whole) (hstop : ∀ c ∈ rest.head?, c.isDigit = false)
    (hpoint : '.' ∉ rest.head?) : ¬ Dangling (whole ++ rest) := by
  intro h
  cases rest with
  | nil =>
    obtain ⟨w, r, heq, -⟩ := h
    rw [List.append_nil] at heq
    exact absurd (hw.2 '.' (by simp [heq])) (by decide)
  | cons c rest =>
    obtain ⟨rfl, -⟩ := h.head? hw.2 (hstop c rfl)
    exact hpoint rfl

theorem not_dangling_point (hw : IsDigits whole) (hf : IsDigits fraction) :
    ¬ Dangling (whole ++ '.' :: fraction ++ rest) := by
  intro h
  rw [List.append_assoc, List.cons_append] at h
  obtain ⟨-, hr⟩ := h.head? hw.2 (by decide)
  obtain ⟨d, ds, rfl⟩ := List.exists_cons_of_ne_nil hf.1
  simpa [hf.head] using hr d rfl

theorem numberLexeme_eq_error_iff {fault : LexFault} :
    numberLexeme (decimalValue whole fraction) text rest = .error fault ↔
      fault = .outOfRange (String.ofList text) ∧ ∀ value, ¬ RoundsTo (decimalNumber whole fraction) value := by
  simp only [roundsTo_iff, not_and, forall_eq, numberLexeme]
  by_cases hfinite : (decimalValue whole fraction).isFinite = true
  · simp [hfinite]
  · simp [hfinite, eq_comm]

/-- What is wrong with a number that is refused. -/
theorem malformed_of_lexNumber {c : Char} {cs : List Char} {fault : LexFault} (hc : c.isDigit = true)
    (h : lexNumber (c :: cs) = .error fault) : ∃ message, Malformed (c :: cs) fault message := by
  have hwhole : IsDigits ((c :: cs).takeWhile Char.isDigit) := ⟨by simp [hc], fun _ => List.mem_takeWhile_imp⟩
  have hsplit : (c :: cs).takeWhile Char.isDigit ++ (c :: cs).dropWhile Char.isDigit = c :: cs :=
    List.takeWhile_append_dropWhile
  have hstop := head?_dropWhile Char.isDigit (c :: cs)
  unfold lexNumber at h
  split at h
  next rest hrest =>
    rw [hrest] at hsplit
    have hfraction : rest.takeWhile Char.isDigit ++ rest.dropWhile Char.isDigit = rest :=
      List.takeWhile_append_dropWhile
    have hstop' := head?_dropWhile Char.isDigit rest
    split at h
    next hnone =>
      cases h
      rw [hnone, List.nil_append] at hfraction
      rw [hfraction] at hstop'
      exact ⟨_, .missingFraction ⟨_, rest, hsplit.symm, hwhole, hstop'⟩⟩
    next d ds hds =>
      obtain ⟨rfl, hvalue⟩ := numberLexeme_eq_error_iff.mp h
      have hdigits : IsDigits (d :: ds) := ⟨by simp, fun _ hd => List.mem_takeWhile_imp (hds ▸ hd)⟩
      have hmalformed := Malformed.outOfRange (.point hwhole hdigits) ((longest_point_iff hwhole hdigits).mpr hstop')
        (not_dangling_point hwhole hdigits) hvalue
      rw [List.append_assoc, List.cons_append, ← hds, hfraction, hsplit] at hmalformed
      exact ⟨_, hds ▸ hmalformed⟩
  next hpoint =>
    obtain ⟨rfl, hvalue⟩ := numberLexeme_eq_error_iff.mp h
    have hpoint : '.' ∉ ((c :: cs).dropWhile Char.isDigit).head? := by
      intro hhead
      obtain ⟨rest, hrest⟩ := List.head?_eq_some_iff.mp hhead
      exact hpoint rest hrest
    have hmalformed := Malformed.outOfRange (.whole hwhole) ((longest_whole_iff hwhole hpoint).mpr hstop)
      (not_dangling_whole hwhole hstop hpoint) hvalue
    rw [hsplit] at hmalformed
    exact ⟨_, hmalformed⟩

theorem lexNumber_of_dangling {cs : List Char} (h : Dangling cs) : lexNumber cs = .error .missingFraction := by
  obtain ⟨whole, rest, rfl, hw, hrest⟩ := h
  have hdot : ∀ c ∈ ('.' :: rest).head?, c.isDigit = false := by simp
  have hnone : rest.takeWhile Char.isDigit = [] := @takeWhile_run Char.isDigit [] rest nofun hrest
  unfold lexNumber
  rw [takeWhile_run hw.2 hdot, dropWhile_run hw.2 hdot]
  simp only [hnone]

theorem lexNumber_of_outOfRange {q : ℚ} (h : IsNumeral text q) (hlongest : Longest text rest)
    (hdangling : ¬ Dangling (text ++ rest)) (hvalue : ∀ value, ¬ RoundsTo q value) :
    lexNumber (text ++ rest) = .error (.outOfRange (String.ofList text)) := by
  unfold lexNumber
  cases h with
  | whole hw =>
    have hpoint := head?_ne_point_of_digits hw hlongest hdangling
    have hstop := (longest_whole_iff hw hpoint).mp hlongest
    rw [takeWhile_run hw.2 hstop, dropWhile_run hw.2 hstop]
    split
    next rest' => exact absurd rfl hpoint
    next => exact numberLexeme_eq_error_iff.mpr ⟨rfl, hvalue⟩
  | @point whole fraction hw hf =>
    have hstop := (longest_point_iff hw hf).mp hlongest
    have hdot : ∀ c ∈ ('.' :: (fraction ++ rest)).head?, c.isDigit = false := by simp
    rw [List.append_assoc, List.cons_append, takeWhile_run hw.2 hdot, dropWhile_run hw.2 hdot]
    obtain ⟨d, ds, rfl⟩ := List.exists_cons_of_ne_nil hf.1
    simp only [takeWhile_run hf.2 hstop, dropWhile_run hf.2 hstop]
    exact numberLexeme_eq_error_iff.mpr ⟨rfl, hvalue⟩

theorem lexeme_of_isDigit {c : Char} (hc : c.isDigit = true) (cs : List Char) : lexeme c cs = lexNumber (c :: cs) := by
  have hat : c ≠ '@' := by
    rintro rfl
    exact absurd hc (by decide)
  simp [lexeme, mark?_eq_none (.inr (.inl hc)), hat, hc]

end Numbers

/-! ### One lexeme -/

theorem mark?_eq_none_iff {c : Char} : mark? c = none ↔ c ∉ ['\x7b', '\x7d', ':', ';', ','] := by
  unfold mark?
  split <;> simp_all

/-- What is wrong where no lexeme is read. -/
theorem malformed_of_lexeme {c : Char} {cs : List Char} {fault : LexFault} (hclear : IsClear (c :: cs))
    (h : lexeme c cs = .error fault) : ∃ message, Malformed (c :: cs) fault message := by
  obtain ⟨hblank, hcomment⟩ := hclear
  unfold lexeme at h
  split at h
  · cases h
  next hmark =>
    split at h
    next hat =>
      subst hat
      split at h
      next hnone =>
        cases h
        have hstop := head?_dropWhile isNameChar cs
        have hsplit : cs.takeWhile isNameChar ++ cs.dropWhile isNameChar = cs := List.takeWhile_append_dropWhile
        rw [hnone, List.nil_append] at hsplit
        rw [hsplit] at hstop
        exact ⟨_, .missingKeyword hstop⟩
      · cases h
    next hat =>
      split at h
      next hdigit => exact malformed_of_lexNumber hdigit h
      next hdigit =>
        split at h
        · cases h
        next hstart =>
          cases h
          simp only [opensComment, Bool.or_eq_false_iff, Bool.and_eq_false_imp, decide_eq_false_iff_not,
            decide_eq_true_eq] at hcomment
          exact ⟨_, .unexpected hblank hcomment.1 hcomment.2 (mark?_eq_none_iff.mp hmark) hat
            (eq_false_of_ne_true hdigit) (eq_false_of_ne_true hstart)⟩

theorem Malformed.exists_cons {cs : List Char} {fault : LexFault} {message : String} (h : Malformed cs fault message) :
    ∃ c rest, cs = c :: rest ∧ IsClear (c :: rest) ∧ lexeme c rest = .error fault ∧ fault.message = message := by
  have hclear {c : Char} (hc : c.isDigit = true) (rest : List Char) : IsClear (c :: rest) := by
    have hlexeme : IsLexeme [c] := .number (.whole ⟨by simp, by simpa using hc⟩)
    simpa using hlexeme.isClear rest
  cases h with
  | @missingKeyword rest hrest =>
    have hnone : rest.takeWhile isNameChar = [] := @takeWhile_run isNameChar [] rest nofun hrest
    refine ⟨'@', rest, rfl, ⟨by decide, by simp [opensComment]⟩, ?_, rfl⟩
    simp [lexeme, mark?, hnone]
  | missingFraction hdangling =>
    have hread := lexNumber_of_dangling hdangling
    obtain ⟨whole, rest, rfl, hw, -⟩ := hdangling
    obtain ⟨d, ds, rfl⟩ := List.exists_cons_of_ne_nil hw.1
    refine ⟨d, _, rfl, hclear hw.head _, ?_, rfl⟩
    rw [lexeme_of_isDigit hw.head]
    exact hread
  | @outOfRange text rest q hnumeral hlongest hdangling hvalue =>
    have hread := lexNumber_of_outOfRange hnumeral hlongest hdangling hvalue
    obtain ⟨d, ds, rfl, hd⟩ := hnumeral.exists_cons
    refine ⟨d, _, rfl, hclear hd _, ?_, rfl⟩
    rw [lexeme_of_isDigit hd]
    exact hread
  | @unexpected c rest hblank hsharp hslash hmark hat hdigit hstart =>
    refine ⟨c, rest, rfl, ⟨hblank, by simpa [opensComment, hsharp] using hslash⟩, ?_, rfl⟩
    simp [lexeme, mark?_eq_none_iff.mpr hmark, hat, hdigit, hstart]

/-- **One lexeme.** Where neither a blank nor a comment begins, a lexeme is refused if and only if what stands there is
malformed. -/
theorem lexeme_eq_error_iff {c : Char} {cs : List Char} {fault : LexFault} (hclear : IsClear (c :: cs)) :
    lexeme c cs = .error fault ↔ ∃ message, Malformed (c :: cs) fault message := by
  refine ⟨malformed_of_lexeme hclear, ?_⟩
  rintro ⟨message, hmalformed⟩
  obtain ⟨_, _, heq, -, hlexeme, -⟩ := hmalformed.exists_cons
  cases heq
  exact hlexeme

/-- A lexeme that is read is not digits and a point. -/
theorem not_dangling_of_lexeme {c : Char} {cs : List Char} {l : Lexeme} (h : lexeme c cs = .ok l) :
    ¬ Dangling (c :: cs) := by
  intro hdangling
  obtain ⟨_, _, heq, -, hlexeme, -⟩ := (Malformed.missingFraction hdangling).exists_cons
  cases heq
  cases h.symm.trans hlexeme

/-! ### Tokens in front of a text -/

theorem Longest.of_prefix {text rest rest' : List Char} (h : Longest text rest) (hrest : rest' <+: rest) :
    Longest text rest' :=
  fun longer hlonger => h longer (hlonger.trans ((List.prefix_append_right_inj text).mpr hrest))

/-- What is read in front of a text is read the same if the text is cut off. -/
theorem Front.splits {after before cs : List Char} {tokens : List Token} (h : Front after before cs tokens) :
    Splits before cs tokens := by
  induction h with
  | stop hgap => exact .stop (hgap.of_head? nofun)
  | @token before gap text rest kind tokens hgap hspells hlongest _ _ ih =>
    refine .token (hgap.of_head? fun c hc => ?_) hspells (hlongest.of_prefix (List.prefix_append rest after)) ih
    obtain ⟨d, ds, rfl, -⟩ := hspells.isLexeme.exists_start
    exact hc

end Lexical

open Lexical

theorem front_of_lexFrom {done : Array Token} {p : Position} {cs before : List Char} {e : LexError}
    (hp : p = placeAfter before) (h : lexFrom done p cs = .error e) :
    ∃ front rest tokens message, cs = front ++ rest ∧ Front rest before front tokens ∧
      Malformed rest e.fault message ∧ e.location = (placeAfter (before ++ front)).location := by
  fun_induction lexFrom done p cs generalizing before with
  | case1 done p cs q hskip => cases h
  | case2 done p cs q c rest hskip fault hl =>
    cases h
    obtain ⟨gap, rest', rfl, hgap, hclear, htrivia⟩ := of_skipTrivia false p cs
    cases hskip.symm.trans hgap
    obtain ⟨message, hmalformed⟩ := (lexeme_eq_error_iff hclear).mp hl
    exact ⟨gap, c :: rest, [], message, rfl, .stop htrivia, hmalformed, by rw [hp, advance_placeAfter]⟩
  | case3 done p cs q c rest hskip l hl _ ih =>
    obtain ⟨gap, rest', rfl, hgap, -, htrivia⟩ := of_skipTrivia false p cs
    cases hskip.symm.trans hgap
    obtain ⟨hspells, hlongest⟩ := of_lexeme hl
    rw [hp, advance_placeAfter, advance_placeAfter] at h ih
    obtain ⟨front, rest, tokens, message, hrest, hfront, hmalformed, hlocation⟩ := ih rfl h
    have hdangling := not_dangling_of_lexeme hl
    rw [← append_of_lexeme hl, hrest] at htrivia hdangling
    rw [hrest] at hlongest
    refine ⟨gap ++ l.text ++ front, rest, _, message, ?_, .token htrivia hspells hlongest hdangling hfront, hmalformed,
      ?_⟩
    · rw [← append_of_lexeme hl, hrest]
      simp
    · rw [hlocation]
      simp

theorem lexFrom_of_front {after before cs : List Char} {tokens : List Token} (h : Front after before cs tokens)
    {fault : LexFault} {message : String} (hafter : Malformed after fault message) (done : Array Token) :
    lexFrom done (placeAfter before) (cs ++ after) = .error ⟨fault, (placeAfter (before ++ cs)).location⟩ := by
  obtain ⟨c, rest, rfl, hclear, hfault, -⟩ := hafter.exists_cons
  induction h generalizing done with
  | @stop before gap hgap =>
    have hskip := skipTrivia_of (placeAfter before) hgap hclear
    rw [advance_placeAfter] at hskip
    rw [lexFrom]
    split
    next heq => cases hskip.symm.trans heq
    next q c' cs' heq =>
      cases hskip.symm.trans heq
      split
      next fault' hfault' =>
        cases hfault.symm.trans hfault'
        rfl
      next l hl => cases hfault.symm.trans hl
  | @token before gap text cs kind tokens hgap hspells hlongest hdangling _ ih =>
    have hskip := skipTrivia_of (placeAfter before) hgap (hspells.isLexeme.isClear (cs ++ c :: rest))
    rw [advance_placeAfter] at hskip
    obtain ⟨d, ds, htext, -⟩ := hspells.isLexeme.exists_start
    rw [List.append_assoc, List.append_assoc, lexFrom]
    split
    next q heq =>
      rw [hskip, htext] at heq
      cases heq
    next q c' cs' heq =>
      obtain ⟨rfl, htail⟩ := Prod.mk.inj (hskip.symm.trans heq)
      have hread := lexeme_of hspells hlongest (fun hw => head?_ne_point_of_digits hw hlongest hdangling) htail
      split
      next fault' hfault' => cases hread.symm.trans hfault'
      next l hl =>
        cases hread.symm.trans hl
        rw [between_placeAfter, advance_placeAfter, ih]
        simp

theorem tokenize_eq_error {source : String} {e : CompileError} :
    tokenize source = .error e ↔ ∃ e', lex source = .error e' ∧ e = .lexical e'.fault e'.location := by
  unfold tokenize
  cases lex source with
  | ok ts => simp
  | error e' => simp [eq_comm]

/-- Where the lexer fails, the text goes on with no token, behind what can be read in front of that. -/
theorem exists_malformed {source : String} {e : CompileError} (htokenize : tokenize source = .error e) :
    ∃ before rest tokens fault message, source = before ++ rest ∧ Front rest.toList [] before.toList tokens ∧
      Malformed rest.toList fault message ∧ e = .lexical fault (placeAfter before.toList).location := by
  obtain ⟨⟨fault, location⟩, h, rfl⟩ := tokenize_eq_error.mp htokenize
  obtain ⟨front, rest, tokens, message, hsource, hfront, hmalformed, hlocation⟩ := @front_of_lexFrom _ _ _ [] _ rfl h
  obtain rfl : location = (placeAfter front).location := hlocation
  refine ⟨String.ofList front, String.ofList rest, tokens, fault, message, ?_, ?_, ?_, ?_⟩
  · rw [← String.ofList_append, ← hsource, String.ofList_toList]
  · simpa using hfront
  · simpa using hmalformed
  · simp

/-- **The lexer stops at the first lexeme that cannot be formed.** It fails if and only if the text has a place where no
token begins, behind tokens that can be read in front of it. These are all the tokens of the text up to that
place, which can be cut into tokens on its own; the error has the line and the column of that place, and it says what
stands there. -/
theorem tokenize_eq_error_iff_malformed (source : String) (e : CompileError) :
    tokenize source = .error e ↔
      ∃ before rest ts fault message, source = before ++ rest ∧ tokenize before = .ok ts ∧
        Front rest.toList [] before.toList ts.list ∧ Malformed rest.toList fault message ∧
        e = .lexical fault (placeAfter before.toList).location ∧
        e.message = CompileError.malformed (placeAfter before.toList).location message := by
  constructor
  · intro h
    obtain ⟨before, rest, tokens, fault, message, hsource, hfront, hmalformed, rfl⟩ := exists_malformed h
    obtain ⟨-, -, -, -, -, hmessage⟩ := hmalformed.exists_cons
    have hsplit : IsSplit before ⟨tokens, placeAfter before.toList⟩ := ⟨hfront.splits, rfl⟩
    refine ⟨before, rest, _, fault, message, hsource, tokenize_eq_ok.mpr (lex_eq_ok_iff.mpr hsplit), hfront, hmalformed,
      rfl, ?_⟩
    rw [← hmessage]
    rfl
  · rintro ⟨before, rest, ts, fault, message, rfl, -, hfront, hmalformed, rfl, -⟩
    refine tokenize_eq_error.mpr ⟨⟨fault, (placeAfter before.toList).location⟩, ?_, rfl⟩
    rw [lex, String.toList_append]
    exact lexFrom_of_front hfront hmalformed #[]

end PoseLang

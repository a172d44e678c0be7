import PoseLang.Proofs.Lists
import PoseLang.Text.ShiftJis

/-!
# Shift_JIS: reading undoes writing

A character that has a code is read back from it, also in front of other codes, so a text that
can be written is read back character by character (`decode_of_encode?`). Three characters are
written as the codes of others and read back as those (`readBack`). Only U+0000 is written with
a zero byte (`ne_zero_of_encode?`), so a field padded with zeros keeps its text up to the first
U+0000 (`decode_takeWhile_of_encode?`).

The table enters by three facts alone: no row is listed twice, no row has more than 94 cells, and
no row lies among the places for private use.
-/

namespace PoseLang.ShiftJis

/-! ### The grid -/

theorem length_toList_ofList_le {cs : List Char} (h : cs.length ≤ 94) :
    (String.ofList cs).toList.length ≤ 94 := by
  rw [String.toList_ofList]
  exact h

set_option maxRecDepth 2000 in
-- A text is taken apart as the list of its characters: evaluating `toList` on it is far too slow.
theorem length_rowTexts : ∀ r ∈ rowTexts, r.2.toList.length ≤ 94 := by
  unfold rowTexts
  repeat
    refine List.forall_mem_cons.mpr ⟨?_, ?_⟩
    · apply length_toList_ofList_le
      decide +kernel
  exact List.forall_mem_nil _

theorem nodup_rowNumbers : (rows.map Prod.fst).Nodup := by
  have h : (rowTexts.map Prod.fst).Nodup := by decide
  simpa [rows, Function.comp_def] using h

/-- The rows lie in the grid and outside the places for private use. -/
theorem rowNumber_bounds : ∀ r ∈ rowTexts, r.1 < 120 ∧ (r.1 < 94 ∨ 114 ≤ r.1) := by decide

/-- A cell of a listed row. -/
structure Cell (c : Char) (row column : Nat) : Prop where
  row_lt : row < 120
  row_public : row < 94 ∨ 114 ≤ row
  column_lt : column < 94
  lookup : ∃ cells, rows.lookup row = some cells ∧ cells[column]? = some c

/-- A character is written as one of its cells. -/
theorem cell_of_place? {c : Char} {p : Nat} (h : place? c = some p) :
    ∃ row column, Cell c row column ∧ p = 94 * row + column := by
  obtain ⟨⟨row, cells⟩, hmem, hp⟩ := List.exists_of_findSome?_eq_some h
  simp only at hp
  split at hp
  · cases hp
  · obtain ⟨column, hc, rfl⟩ := Option.map_eq_some_iff.mp hp
    obtain ⟨hlt, hget, -⟩ := List.findIdx?_eq_some_iff_getElem.mp hc
    obtain ⟨⟨n, text⟩, hrow, heq⟩ := List.mem_map.mp hmem
    obtain ⟨rfl, rfl⟩ := Prod.mk.inj heq
    obtain ⟨h120, hpublic⟩ := rowNumber_bounds _ hrow
    have h94 : text.toList.length ≤ 94 := length_rowTexts _ hrow
    refine ⟨n, column, ⟨h120, hpublic, by omega, text.toList, ?_, ?_⟩, rfl⟩
    · exact lookup_of_mem nodup_rowNumbers hmem
    · rw [List.getElem?_eq_getElem hlt]
      simpa using hget

theorem Cell.charAt? {c : Char} {row column : Nat} (h : Cell c row column) (hc : c ≠ ' ') :
    charAt? (94 * row + column) = some c := by
  obtain ⟨cells, hrow, hcell⟩ := h.lookup
  have := h.column_lt
  unfold ShiftJis.charAt?
  rw [show (94 * row + column) / 94 = row by omega, show (94 * row + column) % 94 = column by omega,
    hrow]
  simp [hcell, hc]

/-! ### The two bytes of a place -/

theorem toNat_lead {p : Nat} (hp : p < 11280) :
    (UInt8.ofNat (if p / 188 < 0x1F then p / 188 + 0x81 else p / 188 + 0xC1)).toNat =
      if p / 188 < 0x1F then p / 188 + 0x81 else p / 188 + 0xC1 := by
  rw [UInt8.toNat_ofNat']
  split <;> omega

theorem toNat_trail (p : Nat) :
    (UInt8.ofNat (if p % 188 < 0x3F then p % 188 + 0x40 else p % 188 + 0x41)).toNat =
      if p % 188 < 0x3F then p % 188 + 0x40 else p % 188 + 0x41 := by
  rw [UInt8.toNat_ofNat']
  split <;> omega

theorem ne_zero_of_isLead {b : UInt8} (h : isLead b) : b ≠ 0 := by
  rintro rfl
  revert h
  decide

theorem ne_zero_of_isTrail {b : UInt8} (h : isTrail b) : b ≠ 0 := by
  rintro rfl
  revert h
  decide

/-- The two bytes of a place are a lead and a trail byte that give the place back. -/
theorem placeBytes_eq {p : Nat} (hp : p < 11280) :
    ∃ lead trail, placeBytes p = [lead, trail] ∧ isLead lead ∧ isTrail trail ∧ placeOf lead trail = p := by
  have hl := toNat_lead hp
  have ht := toNat_trail p
  refine ⟨_, _, rfl, ?_⟩
  generalize UInt8.ofNat (if p / 188 < 0x1F then p / 188 + 0x81 else p / 188 + 0xC1) = lead at hl ⊢
  generalize UInt8.ofNat (if p % 188 < 0x3F then p % 188 + 0x40 else p % 188 + 0x41) = trail at ht ⊢
  simp only [isLead, isTrail, placeOf, Bool.or_eq_true, Bool.and_eq_true, decide_eq_true_eq,
    UInt8.le_iff_toNat_le, UInt8.lt_iff_toNat_lt, UInt8.reduceToNat, hl, ht]
  refine ⟨?_, ?_, ?_⟩ <;> split_ifs <;> omega

/-! ### One character -/

/-- The character that the code of a character is read as. -/
def readBack (c : Char) : Char :=
  if c = '¥' then '\\' else if c = '‾' then '~' else if c = '−' then '－' else c

/-- A byte that is not a lead byte is read on its own. -/
theorem decodeChars_cons_of_not_isLead {b : UInt8} (h : isLead b = false) (rest : List UInt8) :
    decodeChars (b :: rest) = decodeByte b :: decodeChars rest := by
  cases rest with
  | nil => simp [decodeChars, h]
  | cons t rest => simp [decodeChars, h]

theorem decodeChars_pair {lead trail : UInt8} {c : Char} (h : isLead lead)
    (hc : decodePair? lead trail = some c) (rest : List UInt8) :
    decodeChars (lead :: trail :: rest) = c :: decodeChars rest := by
  simp [decodeChars, h, hc]

/-- The bytes of a place with a character are read as the character. -/
theorem decodeChars_placeBytes {c : Char} {p : Nat} (h : place? c = some p) (hc : c ≠ ' ')
    (rest : List UInt8) : decodeChars (placeBytes p ++ rest) = c :: decodeChars rest := by
  obtain ⟨row, column, hcell, rfl⟩ := cell_of_place? h
  have hrow := hcell.row_lt
  have hcol := hcell.column_lt
  have hpublic := hcell.row_public
  obtain ⟨lead, trail, hbytes, hlead, htrail, hplace⟩ := placeBytes_eq (p := 94 * row + column) (by omega)
  rw [hbytes]
  refine decodeChars_pair hlead ?_ rest
  unfold decodePair?
  rw [if_pos htrail, hplace, if_neg (by omega)]
  exact hcell.charAt? hc

theorem toNat_ascii {c : Char} (h : c.toNat ≤ 0x80) : (UInt8.ofNat c.toNat).toNat = c.toNat := by
  rw [UInt8.toNat_ofNat']
  omega

theorem decodeByte_ascii {c : Char} (h : c.toNat ≤ 0x80) :
    isLead (.ofNat c.toNat) = false ∧ decodeByte (.ofNat c.toNat) = c := by
  have hb := toNat_ascii h
  constructor
  · simp only [isLead, Bool.or_eq_false_iff, Bool.and_eq_false_iff, decide_eq_false_iff_not,
      UInt8.le_iff_toNat_le, UInt8.reduceToNat, hb]
    omega
  · have hle : UInt8.ofNat c.toNat ≤ 0x80 := by simpa [UInt8.le_iff_toNat_le, hb] using h
    rw [decodeByte, if_pos hle, hb, Char.ofNat_toNat]

theorem toNat_halfWidth {c : Char} (h : '｡' ≤ c ∧ c ≤ 'ﾟ') :
    (UInt8.ofNat (c.toNat - '｡'.toNat + 0xA1)).toNat = c.toNat - '｡'.toNat + 0xA1 := by
  have hhi : c.toNat ≤ 'ﾟ'.toNat := UInt32.le_iff_toNat_le.mp h.2
  simp only [Char.reduceToNat] at hhi ⊢
  rw [UInt8.toNat_ofNat']
  omega

/-- The half-width forms are one byte each. -/
theorem decodeByte_halfWidth {c : Char} (h : '｡' ≤ c ∧ c ≤ 'ﾟ') :
    isLead (.ofNat (c.toNat - '｡'.toNat + 0xA1)) = false ∧
      decodeByte (.ofNat (c.toNat - '｡'.toNat + 0xA1)) = c := by
  have hlo : '｡'.toNat ≤ c.toNat := UInt32.le_iff_toNat_le.mp h.1
  have hhi : c.toNat ≤ 'ﾟ'.toNat := UInt32.le_iff_toNat_le.mp h.2
  have hb := toNat_halfWidth h
  simp only [Char.reduceToNat] at hlo hhi hb ⊢
  constructor
  · simp only [isLead, Bool.or_eq_false_iff, Bool.and_eq_false_iff, decide_eq_false_iff_not,
      UInt8.le_iff_toNat_le, UInt8.reduceToNat, hb]
    omega
  · have hgt : ¬ UInt8.ofNat (c.toNat - 65377 + 0xA1) ≤ 0x80 := by
      simp only [UInt8.le_iff_toNat_le, UInt8.reduceToNat, hb]; omega
    have hmid : 0xA1 ≤ UInt8.ofNat (c.toNat - 65377 + 0xA1) ∧
        UInt8.ofNat (c.toNat - 65377 + 0xA1) ≤ 0xDF := by
      simp only [UInt8.le_iff_toNat_le, UInt8.reduceToNat, hb]; omega
    rw [decodeByte, if_neg hgt, if_pos hmid, hb]
    simp only [Char.reduceToNat]
    rw [show c.toNat - 65377 + 0xA1 - 0xA1 + 65377 = c.toNat by omega, Char.ofNat_toNat]

/-- The code of a character is read as `readBack` says, whatever follows. -/
theorem decodeChars_of_encodeChar? {c : Char} {bytes : List UInt8} (h : encodeChar? c = some bytes)
    (rest : List UInt8) : decodeChars (bytes ++ rest) = readBack c :: decodeChars rest := by
  unfold encodeChar? at h
  split_ifs at h with hascii hyen hover hhalf hminus
  · cases h
    have hread : readBack c = c := by
      unfold readBack
      split_ifs with h₁ h₂ h₃
      · subst h₁; revert hascii; decide
      · subst h₂; revert hascii; decide
      · subst h₃; revert hascii; decide
      · rfl
    obtain ⟨hlead, hbyte⟩ := decodeByte_ascii hascii
    rw [hread, List.singleton_append, decodeChars_cons_of_not_isLead hlead, hbyte]
  · cases h
    subst hyen
    exact decodeChars_cons_of_not_isLead rfl rest
  · cases h
    subst hover
    exact decodeChars_cons_of_not_isLead rfl rest
  · cases h
    have hread : readBack c = c := by
      unfold readBack
      rw [if_neg hyen, if_neg hover, if_neg]
      rintro rfl
      revert hhalf; decide
    obtain ⟨hlead, hbyte⟩ := decodeByte_halfWidth hhalf
    rw [hread, List.singleton_append, decodeChars_cons_of_not_isLead hlead, hbyte]
  · obtain ⟨p, hp, rfl⟩ := Option.map_eq_some_iff.mp h
    rw [decodeChars_placeBytes hp (by decide)]
    simp [readBack, hminus]
  · obtain ⟨p, hp, rfl⟩ := Option.map_eq_some_iff.mp h
    rw [decodeChars_placeBytes hp (by rintro rfl; exact hascii (by decide))]
    simp [readBack, hyen, hover, hminus]

theorem ne_zero_of_place? {c : Char} {p : Nat} (h : place? c = some p) : 0 ∉ placeBytes p := by
  obtain ⟨row, column, hcell, rfl⟩ := cell_of_place? h
  have hrow := hcell.row_lt
  have hcol := hcell.column_lt
  obtain ⟨lead, trail, hbytes, hlead, htrail, -⟩ := placeBytes_eq (p := 94 * row + column) (by omega)
  rw [hbytes]
  simp [(ne_zero_of_isLead hlead).symm, (ne_zero_of_isTrail htrail).symm]

/-- No other character than U+0000 is written with a zero byte. -/
theorem ne_zero_of_encodeChar? {c : Char} {bytes : List UInt8} (h : encodeChar? c = some bytes)
    (hc : c ≠ '\x00') : 0 ∉ bytes := by
  unfold encodeChar? at h
  split_ifs at h with hascii hyen hover hhalf
  · cases h
    have hb := toNat_ascii hascii
    intro hmem
    rw [← List.mem_singleton.mp hmem] at hb
    refine hc ?_
    rw [← Char.ofNat_toNat c, ← hb]
    rfl
  · cases h; decide
  · cases h; decide
  · cases h
    have hb := toNat_halfWidth hhalf
    intro hmem
    rw [← List.mem_singleton.mp hmem, UInt8.toNat_zero] at hb
    omega
  all_goals
    obtain ⟨p, hp, rfl⟩ := Option.map_eq_some_iff.mp h
    exact ne_zero_of_place? hp

/-! ### Texts -/

theorem decodeChars_flatten {cs : List Char} {codes : List (List UInt8)}
    (h : List.Forall₂ (fun c code => encodeChar? c = some code) cs codes) :
    decodeChars codes.flatten = cs.map readBack := by
  induction h with
  | nil => rfl
  | cons hc _ ih => rw [List.flatten_cons, decodeChars_of_encodeChar? hc, ih, List.map_cons]

/-- A text that was written is read back, character by character. -/
theorem decode_of_encode? {s : String} {bytes : List UInt8} (h : encode? s = some bytes) :
    decode bytes = String.ofList (s.toList.map readBack) := by
  obtain ⟨codes, hcodes, rfl⟩ := Option.map_eq_some_iff.mp h
  rw [decode, decodeChars_flatten (mapM_eq_some_iff.mp hcodes)]

/-- A text without U+0000 is written without a zero byte. -/
theorem ne_zero_of_encode? {s : String} {bytes : List UInt8} (h : encode? s = some bytes)
    (hs : '\x00' ∉ s.toList) : 0 ∉ bytes := by
  obtain ⟨codes, hcodes, rfl⟩ := Option.map_eq_some_iff.mp h
  have hread := mapM_eq_some_iff.mp hcodes
  rw [List.mem_flatten]
  rintro ⟨code, hmem, hzero⟩
  obtain ⟨i, hi, rfl⟩ := List.getElem_of_mem hmem
  have hc := hread.get (by rw [hread.length_eq]; exact hi) hi
  refine ne_zero_of_encodeChar? hc ?_ hzero
  intro heq
  exact hs (heq ▸ List.getElem_mem _)

/-- Up to the first zero byte a code is that of the characters before the first U+0000. -/
theorem exists_codes_takeWhile {cs : List Char} {codes : List (List UInt8)}
    (h : List.Forall₂ (fun c code => encodeChar? c = some code) cs codes) :
    ∃ front, List.Forall₂ (fun c code => encodeChar? c = some code) (cs.takeWhile (· ≠ '\x00')) front ∧
      codes.flatten.takeWhile (· ≠ 0) = front.flatten := by
  induction h with
  | nil => exact ⟨[], .nil, rfl⟩
  | @cons c code cs codes hc _ ih =>
    by_cases hzero : c = '\x00'
    · subst hzero
      obtain rfl : [0] = code := Option.some.inj hc
      exact ⟨[], by simp, by simp⟩
    · obtain ⟨front, hfront, hflatten⟩ := ih
      have hcode : ∀ b ∈ code, decide (b ≠ 0) = true := by
        intro b hb
        exact decide_eq_true fun hbyte => ne_zero_of_encodeChar? hc hzero (hbyte ▸ hb)
      refine ⟨code :: front, ?_, ?_⟩
      · have hcons : (c :: cs).takeWhile (· ≠ '\x00') = c :: cs.takeWhile (· ≠ '\x00') :=
          List.takeWhile_cons_of_pos (by simpa using hzero)
        rw [hcons]
        exact .cons hc hfront
      · rw [List.flatten_cons, List.takeWhile_append_of_pos hcode, hflatten, List.flatten_cons]

/-- A text that was written is read back up to its first U+0000. -/
theorem decode_takeWhile_of_encode? {s : String} {bytes : List UInt8} (h : encode? s = some bytes) :
    decode (bytes.takeWhile (· ≠ 0)) = String.ofList ((s.toList.takeWhile (· ≠ '\x00')).map readBack) := by
  obtain ⟨codes, hcodes, rfl⟩ := Option.map_eq_some_iff.mp h
  obtain ⟨front, hfront, hflatten⟩ := exists_codes_takeWhile (mapM_eq_some_iff.mp hcodes)
  rw [hflatten, decode, decodeChars_flatten hfront]

theorem readBack_eq_self_iff {c : Char} : readBack c = c ↔ c ∉ ['¥', '‾', '−'] := by
  unfold readBack
  split_ifs with hyen hover hminus
  · subst hyen; decide
  · subst hover; decide
  · subst hminus; decide
  · simp [hyen, hover, hminus]

/-! ### The code of a given text

The table is searched row by row, each row taken apart as a list of characters. -/

/-- The place of a character among some rows. -/
def placeIn? (texts : List (Nat × String)) (c : Char) : Option Nat :=
  (texts.map fun (row, text) => (row, text.toList)).findSome? fun (row, cells) =>
    if 88 ≤ row ∧ row ≤ 91 then none else (cells.idxOf? c).map (94 * row + ·)

/-- A row without the character is passed over. -/
theorem placeIn?_skip {cs : List Char} {c : Char} (h : c ∉ cs) (row : Nat) (texts : List (Nat × String)) :
    placeIn? ((row, String.ofList cs) :: texts) c = placeIn? texts c := by
  simp [placeIn?, List.idxOf?_eq_none_iff.mpr h]

/-- The first row with the character has its place. -/
theorem placeIn?_here {cs : List Char} {c : Char} {row column : Nat} (h : cs.idxOf? c = some column)
    (hrow : row < 88) (texts : List (Nat × String)) :
    placeIn? ((row, String.ofList cs) :: texts) c = some (94 * row + column) := by
  simp [placeIn?, h, show ¬ 88 ≤ row by omega]

set_option maxRecDepth 2000 in
/-- The player's name of the centre of the body, in katakana. -/
theorem encode?_center :
    encode? "センター" = some [0x83, 0x5A, 0x83, 0x93, 0x83, 0x5E, 0x81, 0x5B] := by
  have hskip : ∀ c ∈ ['セ', 'ン', 'タ'], placeIn? rowTexts c = placeIn? (rowTexts.drop 4) c := by
    intro c hc
    have hc : c = 'セ' ∨ c = 'ン' ∨ c = 'タ' := by simpa using hc
    unfold rowTexts
    iterate 4
      refine Eq.trans (by apply placeIn?_skip; rcases hc with rfl | rfl | rfl <;> decide +kernel) ?_
    rfl
  have hse : place? 'セ' = some (94 * 4 + 26) := by
    refine (hskip 'セ' (by decide)).trans ?_
    apply placeIn?_here <;> decide +kernel
  have hn : place? 'ン' = some (94 * 4 + 82) := by
    refine (hskip 'ン' (by decide)).trans ?_
    apply placeIn?_here <;> decide +kernel
  have hta : place? 'タ' = some (94 * 4 + 30) := by
    refine (hskip 'タ' (by decide)).trans ?_
    apply placeIn?_here <;> decide +kernel
  have hbar : place? 'ー' = some 27 := by
    show placeIn? rowTexts 'ー' = some (94 * 0 + 27)
    unfold rowTexts
    apply placeIn?_here <;> decide +kernel
  have hlist : "センター".toList = ['セ', 'ン', 'タ', 'ー'] := by decide +kernel
  simp [encode?, hlist, encodeChar?, hse, hn, hta, hbar]
  decide

end PoseLang.ShiftJis

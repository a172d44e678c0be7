import Mathlib.Tactic.Ring
import PoseLang.Proofs.Lists
import PoseLang.Proofs.Motion.Decode

/-!
# All that a decoder reads

`Reads` says what a decoder does with bytes that it can read. `Parses d values` says it of every stream:
the bytes that `d` takes from the front are among those that `values` names, and it takes them whatever
follows. A decoder that takes a fixed number of bytes (`Fixed`) parses every stretch of that length. Both
compose as the decoders do, so what a decoder of several parts accepts is put together from its parts.

What is proved:

* a part of one size is a stretch of bytes (`Fixed.parses`), a bone record one of 111 bytes whose fields
  stand at fixed places (`fixed_takeRecord`);
* a word is its four bytes (`parses_takeWord`);
* a run of records is taken record by record: bone records (`parses_takeRecords`), records of one size that
  are skipped at once (`parses_skip_run`), and inverse-kinematics records, each of which says how long it
  is (`parses_skipIks`).
-/

namespace PoseLang

section Parses

variable {α β : Type}

/-- The error of reading parts from a cursor on: a part that is cut off begins within the stream. -/
def DecodeError.Within (c : Cursor) : DecodeError → Prop
  | badSignature => True
  | truncated _ offset => c.offset ≤ offset ∧ offset ≤ c.offset + c.rest.length
  | trailingBytes _ => False

/-- An error after some bytes is an error before them. -/
theorem DecodeError.Within.of_append {e : DecodeError} {c c' : Cursor} {x : List UInt8} (h : e.Within c')
    (hrest : c.rest = x ++ c'.rest) (hoffset : c'.offset = c.offset + x.length) : e.Within c := by
  cases e with
  | badSignature => trivial
  | trailingBytes => exact h.elim
  | truncated part offset =>
    obtain ⟨hlow, hhigh⟩ := h
    unfold Within
    rw [hrest, List.length_append]
    omega

/-- The decoder reads these bytes, each with its value, and no others: whatever follows, it reads them;
what it has read is among them; and it finds an error within the stream. -/
structure Parses (d : Decoder α) (values : List UInt8 → α → Prop) : Prop where
  reads : ∀ {bytes a}, values bytes a → Reads d bytes a
  of_ok : ∀ {c a c'}, d c = .ok (a, c') →
    ∃ bytes, values bytes a ∧ c.rest = bytes ++ c'.rest ∧ c'.offset = c.offset + bytes.length
  of_error : ∀ {c e}, d c = .error e → e.Within c

theorem decoder_bind_eq_ok_iff {d : Decoder α} {f : α → Decoder β} {c c' : Cursor} {b : β} :
    (d >>= f) c = .ok (b, c') ↔ ∃ a c₁, d c = .ok (a, c₁) ∧ f a c₁ = .ok (b, c') := by
  show (d c >>= fun p => f p.1 p.2) = _ ↔ _
  rw [bind_eq_ok_iff, Prod.exists]

theorem decoder_bind_eq_error_iff {d : Decoder α} {f : α → Decoder β} {c : Cursor} {e : DecodeError} :
    (d >>= f) c = .error e ↔ d c = .error e ∨ ∃ a c₁, d c = .ok (a, c₁) ∧ f a c₁ = .error e := by
  show (d c >>= fun p => f p.1 p.2) = _ ↔ _
  cases d c with
  | error e' => simp [bind, Except.bind]
  | ok p =>
    obtain ⟨a, c₁⟩ := p
    simp [bind, Except.bind]

namespace Parses

theorem pure (a : α) : Parses (Pure.pure a) fun bytes b => bytes = [] ∧ b = a where
  reads := by
    rintro _ _ ⟨rfl, rfl⟩
    exact Reads.pure _
  of_ok := by
    rintro c _ _ ⟨⟩
    exact ⟨[], ⟨rfl, rfl⟩, rfl, rfl⟩
  of_error := nofun

/-- One part after the other. -/
theorem bind {d : Decoder α} {f : α → Decoder β} {first : List UInt8 → α → Prop} {second : α → List UInt8 → β → Prop}
    (hd : Parses d first) (hf : ∀ a, Parses (f a) (second a)) :
    Parses (d >>= f) fun bytes b => ∃ x y a, first x a ∧ second a y b ∧ bytes = x ++ y where
  reads := by
    rintro _ b ⟨x, y, a, hx, hy, rfl⟩
    exact (hd.reads hx).bind ((hf a).reads hy)
  of_ok := by
    intro c b c' h
    obtain ⟨a, c₁, hfirst, hsecond⟩ := decoder_bind_eq_ok_iff.mp h
    obtain ⟨x, hx, hrest, hoffset⟩ := hd.of_ok hfirst
    obtain ⟨y, hy, hrest', hoffset'⟩ := (hf a).of_ok hsecond
    refine ⟨x ++ y, ⟨x, y, a, hx, hy, rfl⟩, ?_, ?_⟩
    · rw [hrest, hrest', List.append_assoc]
    · rw [hoffset', hoffset, List.length_append, Nat.add_assoc]
  of_error := by
    intro c e h
    rcases decoder_bind_eq_error_iff.mp h with h | ⟨a, c₁, hfirst, h⟩
    · exact hd.of_error h
    · obtain ⟨x, -, hrest, hoffset⟩ := hd.of_ok hfirst
      exact ((hf a).of_error h).of_append hrest hoffset

theorem congr {d : Decoder α} {values values' : List UInt8 → α → Prop} (h : Parses d values)
    (hsame : ∀ bytes a, values bytes a ↔ values' bytes a) : Parses d values' := by
  obtain rfl : values = values' := by
    funext bytes a
    exact propext (hsame bytes a)
  exact h

theorem map {d : Decoder α} {values : List UInt8 → α → Prop} (hd : Parses d values) (f : α → β) :
    Parses (do return f (← d)) fun bytes b => ∃ a, values bytes a ∧ b = f a := by
  refine (hd.bind fun a => Parses.pure (f a)).congr fun bytes b => ?_
  constructor
  · rintro ⟨x, _, a, hx, ⟨rfl, rfl⟩, rfl⟩
    exact ⟨a, (List.append_nil x).symm ▸ hx, rfl⟩
  · rintro ⟨a, hx, rfl⟩
    exact ⟨bytes, [], a, hx, ⟨rfl, rfl⟩, (List.append_nil bytes).symm⟩

/-- A demand that stands before the rest. -/
theorem demand {d : Decoder α} {values : List UInt8 → α → Prop} (hd : Parses d values) (p : Prop) [Decidable p] :
    Parses (do
      unless p do
        throw .badSignature
      d) fun bytes a => p ∧ values bytes a := by
  by_cases hp : p
  · simp only [hp, if_true, true_and]
    exact hd
  · simp only [hp, if_false]
    refine ⟨fun h => h.1.elim, nofun, ?_⟩
    rintro _ _ ⟨⟩
    trivial

end Parses

/-- The decoder reads any bytes of one length. -/
structure Fixed (d : Decoder α) (size : Nat) (value : List UInt8 → α) : Prop where
  reads : ∀ {bytes}, bytes.length = size → Reads d bytes (value bytes)
  short : ∀ {c}, c.rest.length < size → ∃ part offset, d c = .error (.truncated part offset) ∧
    (DecodeError.truncated part offset).Within c

namespace Fixed

theorem pure (a : α) : Fixed (Pure.pure a) 0 fun _ => a where
  reads h := by
    rw [List.length_eq_zero_iff] at h
    subst h
    exact Reads.pure a
  short h := absurd h (Nat.not_lt_zero _)

theorem eq_ok {d : Decoder α} {size : Nat} {value : List UInt8 → α} (h : Fixed d size value) {c : Cursor}
    (hsize : size ≤ c.rest.length) : d c = .ok (value (c.rest.take size), ⟨c.offset + size, c.rest.drop size⟩) := by
  have hread := h.reads (List.length_take_of_le hsize) c.offset (c.rest.drop size)
  rwa [List.take_append_drop, List.length_take_of_le hsize] at hread

theorem bind {d : Decoder α} {f : α → Decoder β} {n k : Nat} {first : List UInt8 → α} {second : α → List UInt8 → β}
    (hd : Fixed d n first) (hf : ∀ a, Fixed (f a) k (second a)) :
    Fixed (d >>= f) (n + k) fun bytes => second (first (bytes.take n)) (bytes.drop n) where
  reads {bytes} h := by
    have hread := (hd.reads (List.length_take_of_le (by omega : n ≤ bytes.length))).bind
      ((hf _).reads (by simp [h] : (bytes.drop n).length = k))
    rwa [List.take_append_drop] at hread
  short {c} h := by
    by_cases hn : n ≤ c.rest.length
    · have hlt : (c.rest.drop n).length < k := by
        rw [List.length_drop]
        omega
      obtain ⟨part, offset, herror, hwithin⟩ := (hf (first (c.rest.take n))).short
        (c := ⟨c.offset + n, c.rest.drop n⟩) hlt
      refine ⟨part, offset, decoder_bind_eq_error_iff.mpr (.inr ⟨_, _, hd.eq_ok hn, herror⟩), ?_⟩
      exact hwithin.of_append (List.take_append_drop n c.rest).symm (by rw [List.length_take_of_le hn])
    · obtain ⟨part, offset, herror, hwithin⟩ := hd.short (Nat.lt_of_not_le hn)
      exact ⟨part, offset, decoder_bind_eq_error_iff.mpr (.inl herror), hwithin⟩

theorem parses {d : Decoder α} {size : Nat} {value : List UInt8 → α} (h : Fixed d size value) :
    Parses d fun bytes a => bytes.length = size ∧ a = value bytes where
  reads := by
    rintro bytes _ ⟨hsize, rfl⟩
    exact h.reads hsize
  of_ok := by
    intro c a c' hok
    by_cases hsize : size ≤ c.rest.length
    · rw [h.eq_ok hsize] at hok
      cases hok
      exact ⟨_, ⟨List.length_take_of_le hsize, rfl⟩, (List.take_append_drop ..).symm, by simp [hsize]⟩
    · obtain ⟨part, offset, herror, -⟩ := h.short (Nat.lt_of_not_le hsize)
      rw [herror] at hok
      cases hok
  of_error := by
    intro c e herror
    by_cases hsize : size ≤ c.rest.length
    · rw [h.eq_ok hsize] at herror
      cases herror
    · obtain ⟨part, offset, herror', hwithin⟩ := h.short (Nat.lt_of_not_le hsize)
      rw [herror'] at herror
      cases herror
      exact hwithin

end Fixed

end Parses

/-! ### Parts of one size -/

theorem dropExactly?_eq_none {α : Type} {n : Nat} {l : List α} (h : l.length < n) : dropExactly? n l = none := by
  induction n generalizing l with
  | zero => cases h
  | succ n ih =>
    cases l with
    | nil => rfl
    | cons a l => exact ih (Nat.lt_of_succ_lt_succ h)

theorem fixed_takeBytes (part : StreamPart) (n : Nat) : Fixed (takeBytes part n) n id where
  reads h := reads_takeBytes h
  short {c} h := by
    refine ⟨part, c.offset, ?_, le_rfl, Nat.le_add_right ..⟩
    unfold takeBytes
    rw [dropExactly?_eq_none h]

theorem fixed_skip (part : StreamPart) (n : Nat) : Fixed (skip part n) n fun _ => () where
  reads := by
    rintro bytes rfl offset rest
    unfold skip
    rw [dropExactly?_append]
  short {c} h := by
    refine ⟨part, c.offset, ?_, le_rfl, Nat.le_add_right ..⟩
    unfold skip
    rw [dropExactly?_eq_none h]

/-- The word at a place, the lowest byte first. -/
def Layout.wordAt (bytes : List UInt8) (place : Nat) : UInt32 :=
  wordOf (bytes.getD place 0) (bytes.getD (place + 1) 0) (bytes.getD (place + 2) 0) (bytes.getD (place + 3) 0)

theorem wordAt_take (bytes : List UInt8) : Layout.wordAt (bytes.take 4) 0 = Layout.wordAt bytes 0 := by
  simp [Layout.wordAt]

theorem wordAt_drop (bytes : List UInt8) (n : Nat) : Layout.wordAt (bytes.drop n) 0 = Layout.wordAt bytes n := by
  simp [Layout.wordAt]

theorem fixed_takeWord (part : StreamPart) : Fixed (takeWord part) 4 (Layout.wordAt · 0) where
  reads {bytes} h := by
    match bytes, h with
    | [a, b, c, d], _ => exact fun _ _ => rfl
  short {c} h := by
    obtain ⟨offset, rest⟩ := c
    refine ⟨part, offset, ?_, le_rfl, Nat.le_add_right ..⟩
    match rest, h with
    | [], _ | [_], _ | [_, _], _ | [_, _, _], _ => rfl

/-- The bytes that make up a word are its bytes. -/
theorem wordBytes_wordOf (a b c d : UInt8) : Layout.wordBytes (Layout.wordOf a b c d) = [a, b, c, d] := by
  have ha := a.toNat_lt
  have hb := b.toNat_lt
  have hc := c.toNat_lt
  have hd := d.toNat_lt
  simp only [Layout.wordBytes, List.cons.injEq, ← UInt8.toNat_inj, UInt32.toNat_toUInt8, UInt32.toNat_shiftRight,
    UInt32.reduceToNat, Nat.reduceMod, Nat.shiftRight_eq_div_pow, toNat_wordOf, and_true]
  refine ⟨?_, ?_, ?_, ?_⟩ <;> omega

theorem parses_takeWord (part : StreamPart) : Parses (takeWord part) fun bytes w => bytes = Layout.wordBytes w := by
  refine (fixed_takeWord part).parses.congr fun bytes w => ?_
  constructor
  · rintro ⟨hlength, rfl⟩
    match bytes, hlength with
    | [a, b, c, d], _ => exact (wordBytes_wordOf a b c d).symm
  · rintro rfl
    exact ⟨rfl, (wordOf_wordBytes w).symm⟩

theorem fixed_takeSingle (part : StreamPart) : Fixed (takeSingle part) 4 fun bytes => ⟨Layout.wordAt bytes 0⟩ := by
  have h : Fixed (takeSingle part) _ _ := (fixed_takeWord part).bind fun w => Fixed.pure (Single.mk w)
  simpa only [wordAt_take] using h

/-- The bone record that 111 bytes are. -/
def BoneRecord.ofBytes (bytes : List UInt8) : BoneRecord where
  boneName := fieldName (bytes.take 15)
  frame := Layout.wordAt bytes 15
  shift := ⟨⟨Layout.wordAt bytes 19⟩, ⟨Layout.wordAt bytes 23⟩, ⟨Layout.wordAt bytes 27⟩⟩
  rotation := ⟨⟨Layout.wordAt bytes 31⟩, ⟨Layout.wordAt bytes 35⟩, ⟨Layout.wordAt bytes 39⟩, ⟨Layout.wordAt bytes 43⟩⟩
  interpolation := (bytes.drop 47).take 64

theorem fixed_takeRecord : Fixed takeRecord 111 BoneRecord.ofBytes := by
  have h : Fixed takeRecord _ _ :=
    (fixed_takeBytes .boneName 15).bind fun name =>
    (fixed_takeWord .boneFrame).bind fun frame =>
    (fixed_takeSingle .boneShift).bind fun tx =>
    (fixed_takeSingle .boneShift).bind fun ty =>
    (fixed_takeSingle .boneShift).bind fun tz =>
    (fixed_takeSingle .boneRotation).bind fun rx =>
    (fixed_takeSingle .boneRotation).bind fun ry =>
    (fixed_takeSingle .boneRotation).bind fun rz =>
    (fixed_takeSingle .boneRotation).bind fun rw =>
    (fixed_takeBytes .boneInterpolation 64).bind fun interpolation =>
    Fixed.pure (BoneRecord.mk (fieldName name) frame ⟨tx, ty, tz⟩ ⟨rx, ry, rz, rw⟩ interpolation)
  unfold BoneRecord.ofBytes
  simpa [wordAt_take, wordAt_drop] using h

/-! ### Runs of records -/

/-- A run of so many records. -/
structure IsRun (isRecord : List UInt8 → Prop) (n : Nat) (records : List (List UInt8)) : Prop where
  count : records.length = n
  each : ∀ r ∈ records, isRecord r

namespace IsRun

variable {isRecord : List UInt8 → Prop} {n : Nat} {records : List (List UInt8)}

theorem zero_iff : IsRun isRecord 0 records ↔ records = [] := by
  constructor
  · intro h
    exact List.length_eq_zero_iff.mp h.count
  · rintro rfl
    exact ⟨rfl, nofun⟩

theorem succ_iff : IsRun isRecord (n + 1) records ↔
    ∃ r rs, isRecord r ∧ IsRun isRecord n rs ∧ records = r :: rs := by
  constructor
  · intro h
    obtain ⟨r, rs, rfl⟩ := List.exists_cons_of_length_eq_add_one h.count
    exact ⟨r, rs, h.each r List.mem_cons_self,
      ⟨Nat.succ.inj h.count, fun r' hr' => h.each r' (List.mem_cons_of_mem r hr')⟩, rfl⟩
  · rintro ⟨r, rs, hr, hrs, rfl⟩
    exact ⟨congrArg (· + 1) hrs.count, List.forall_mem_cons.mpr ⟨hr, hrs.each⟩⟩

end IsRun

/-- A stretch of bytes is a run of records of one size, as its length says. -/
theorem exists_isRun_iff {size n : Nat} {bytes : List UInt8} :
    (∃ records, IsRun (·.length = size) n records ∧ bytes = records.flatten) ↔ bytes.length = n * size := by
  induction n generalizing bytes with
  | zero => simp [IsRun.zero_iff]
  | succ n ih =>
    simp only [IsRun.succ_iff]
    constructor
    · rintro ⟨_, ⟨r, rs, hr, hrs, rfl⟩, rfl⟩
      have hrest : rs.flatten.length = n * size := ih.mp ⟨rs, hrs, rfl⟩
      rw [List.flatten_cons, List.length_append, hr, hrest]
      ring
    · intro h
      have hle : size ≤ bytes.length := by
        rw [h]
        exact Nat.le_mul_of_pos_left size (Nat.succ_pos n)
      obtain ⟨rs, hrs, hdrop⟩ := ih.mpr (show (bytes.drop size).length = n * size by
        rw [List.length_drop, h, Nat.succ_mul, Nat.add_sub_cancel])
      refine ⟨_, ⟨bytes.take size, rs, List.length_take_of_le hle, hrs, rfl⟩, ?_⟩
      rw [List.flatten_cons, ← hdrop, List.take_append_drop]

theorem parses_skip (part : StreamPart) (n : Nat) : Parses (skip part n) fun bytes _ => bytes.length = n :=
  (fixed_skip part n).parses.congr fun _ _ => and_iff_left rfl

theorem parses_skip_run (part : StreamPart) (size n : Nat) :
    Parses (skip part (n * size)) fun bytes _ =>
      ∃ records, IsRun (·.length = size) n records ∧ bytes = records.flatten := by
  simp only [exists_isRun_iff]
  exact parses_skip part (n * size)

/-- Records are read one after the other, behind those that were read already. -/
theorem parses_takeRecords (n : Nat) (done : List BoneRecord) :
    Parses (takeRecords n done) fun bytes records =>
      ∃ run, IsRun (·.length = 111) n run ∧ bytes = run.flatten ∧
        records = done.reverse ++ run.map BoneRecord.ofBytes := by
  induction n generalizing done with
  | zero =>
    refine (Parses.pure done.reverse).congr fun bytes records => ?_
    simp [IsRun.zero_iff]
  | succ n ih =>
    refine (fixed_takeRecord.parses.bind fun record => ih (record :: done)).congr fun bytes records => ?_
    simp only [IsRun.succ_iff]
    constructor
    · rintro ⟨r, _, _, ⟨hr, rfl⟩, ⟨rs, hrs, rfl, rfl⟩, rfl⟩
      exact ⟨r :: rs, ⟨r, rs, hr, hrs, rfl⟩, rfl, by simp⟩
    · rintro ⟨_, ⟨r, rs, hr, hrs, rfl⟩, rfl, rfl⟩
      exact ⟨r, rs.flatten, _, ⟨hr, rfl⟩, ⟨rs, hrs, rfl, by simp⟩, rfl⟩

/-- The bytes are an inverse-kinematics record: five bytes, how many toggles, and the toggles. -/
def IsIk (bytes : List UInt8) : Prop :=
  ∃ start toggles, ∃ n : UInt32, start.length = 5 ∧ toggles.length = n.toNat * 21 ∧
    bytes = start ++ (Layout.wordBytes n ++ toggles)

theorem parses_skipIks (n : Nat) :
    Parses (skipIks n) fun bytes _ => ∃ records, IsRun IsIk n records ∧ bytes = records.flatten := by
  induction n with
  | zero =>
    refine (Parses.pure ()).congr fun bytes _ => ?_
    simp [IsRun.zero_iff]
  | succ n ih =>
    have hparses := (parses_skip .ik Layout.ikSize).bind fun _ =>
      (parses_takeWord .ikToggleCount).bind fun toggles =>
      (parses_skip .ikToggles (toggles.toNat * Layout.ikToggleSize)).bind fun _ => ih
    refine hparses.congr fun bytes _ => ?_
    simp only [IsRun.succ_iff]
    constructor
    · rintro ⟨start, _, _, hstart, ⟨_, _, w, rfl, ⟨toggles, _, _, htoggles, ⟨rs, hrs, rfl⟩, rfl⟩, rfl⟩, rfl⟩
      exact ⟨_, ⟨_, rs, ⟨start, toggles, w, hstart, htoggles, rfl⟩, hrs, rfl⟩, by simp⟩
    · rintro ⟨_, ⟨_, rs, ⟨start, toggles, w, hstart, htoggles, rfl⟩, hrs, rfl⟩, rfl⟩
      exact ⟨start, _, (), hstart, ⟨_, _, w, rfl, ⟨toggles, _, (), htoggles, ⟨rs, hrs, rfl⟩, rfl⟩, rfl⟩, by simp⟩

end PoseLang

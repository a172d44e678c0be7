import Mathlib.Algebra.Group.Nat.Defs
import Mathlib.Data.List.Forall2
import PoseLang.Motion.Decode

/-!
# What a decoder reads

`Reads d bytes a` says that the decoder `d` takes exactly `bytes` from the front of a stream and
gives `a`, whatever follows and wherever the stream stands. It composes (`Reads.bind`), so each
part of a stream has one lemma: a field, a word, a bone record, a run of bone records, a section
without records. A stream that a decoder reads whole is a motion (`decode_of_reads`).
-/

namespace PoseLang

/-! ### Words -/

/-- Bits above a number add to it. -/
theorem lor_shiftLeft {x k : Nat} (h : x < 2 ^ k) (a : Nat) : x ||| a <<< k = x + a * 2 ^ k := by
  rw [Nat.or_comm, Nat.shiftLeft_eq, Nat.mul_comm, ← Nat.two_pow_add_eq_or_of_lt h, Nat.add_comm]

theorem toNat_wordOf (a b c d : UInt8) :
    (Layout.wordOf a b c d).toNat =
      a.toNat + b.toNat * 2 ^ 8 + c.toNat * 2 ^ 16 + d.toNat * 2 ^ 24 := by
  have ha := a.toNat_lt
  have hb := b.toNat_lt
  have hc := c.toNat_lt
  have hd := d.toNat_lt
  have hshift : ∀ k x, k ≤ 24 → x < 2 ^ 8 → x <<< k % 2 ^ 32 = x <<< k := by
    intro k x hk hx
    refine Nat.mod_eq_of_lt ?_
    rw [Nat.shiftLeft_eq]
    calc x * 2 ^ k < 2 ^ 8 * 2 ^ k := Nat.mul_lt_mul_of_pos_right hx (Nat.two_pow_pos k)
      _ = 2 ^ (8 + k) := (Nat.pow_add ..).symm
      _ ≤ 2 ^ 32 := Nat.pow_le_pow_right (by decide) (by omega)
  unfold Layout.wordOf
  simp only [UInt32.toNat_or, UInt32.toNat_shiftLeft, UInt8.toNat_toUInt32, UInt32.reduceToNat, Nat.reduceMod]
  rw [hshift 8 _ (by decide) hb, hshift 16 _ (by decide) hc, hshift 24 _ (by decide) hd,
    lor_shiftLeft ha, lor_shiftLeft (k := 16) (by omega), lor_shiftLeft (k := 24) (by omega)]

/-- The bytes of a word give the word back. -/
theorem wordOf_wordBytes (w : UInt32) :
    Layout.wordOf w.toUInt8 (w >>> 8).toUInt8 (w >>> 16).toUInt8 (w >>> 24).toUInt8 = w := by
  have hw := w.toNat_lt
  apply UInt32.toNat_inj.mp
  rw [toNat_wordOf]
  simp only [UInt32.toNat_toUInt8, UInt32.toNat_shiftRight, UInt32.reduceToNat, Nat.reduceMod,
    Nat.shiftRight_eq_div_pow]
  omega

/-! ### Reading -/

section Reads

variable {α β : Type}

/-- The decoder reads these bytes as this value, whatever follows them. -/
def Reads (d : Decoder α) (bytes : List UInt8) (a : α) : Prop :=
  ∀ offset rest, d ⟨offset, bytes ++ rest⟩ = .ok (a, ⟨offset + bytes.length, rest⟩)

theorem Reads.pure (a : α) : Reads (Pure.pure a) [] a := fun _ _ => rfl

/-- One part after the other. -/
theorem Reads.bind {d : Decoder α} {f : α → Decoder β} {bytes bytes' : List UInt8} {a : α} {b : β}
    (hd : Reads d bytes a) (hf : Reads (f a) bytes' b) : Reads (d >>= f) (bytes ++ bytes') b := by
  intro offset rest
  show (d ⟨offset, bytes ++ bytes' ++ rest⟩ >>= fun (a, c) => f a c) = _
  rw [List.append_assoc, hd]
  show f a ⟨offset + bytes.length, bytes' ++ rest⟩ = _
  rw [hf, List.length_append, Nat.add_assoc]

theorem Reads.map {d : Decoder α} {bytes : List UInt8} {a : α} (hd : Reads d bytes a) (f : α → β) :
    Reads (do return f (← d)) bytes (f a) := by
  have h := hd.bind (f := fun a => Pure.pure (f a)) (Reads.pure (f a))
  rwa [List.append_nil] at h

end Reads

theorem dropExactly?_append (bytes rest : List UInt8) :
    dropExactly? bytes.length (bytes ++ rest) = some rest := by
  induction bytes with
  | nil => rfl
  | cons b bytes ih => exact ih

theorem reads_takeBytes {part : StreamPart} {n : Nat} {bytes : List UInt8} (h : bytes.length = n) :
    Reads (takeBytes part n) bytes bytes := by
  subst h
  intro offset rest
  simp [takeBytes, dropExactly?_append]

theorem reads_takeWord (part : StreamPart) (w : UInt32) : Reads (takeWord part) (Layout.wordBytes w) w := by
  intro offset rest
  simp [takeWord, Layout.wordBytes, wordOf_wordBytes]

theorem reads_takeSingle (part : StreamPart) (x : Single) :
    Reads (takeSingle part) (Layout.wordBytes x.bits) x :=
  (reads_takeWord part x.bits).map Single.mk

/-! ### Records and sections -/

/-- The bytes of a bone record, given the field of its name. -/
def BoneRecord.bytes (name : List UInt8) (r : BoneRecord) : List UInt8 :=
  name ++ (Layout.wordBytes r.frame
    ++ (Layout.wordBytes r.shift.x.bits ++ (Layout.wordBytes r.shift.y.bits ++ (Layout.wordBytes r.shift.z.bits
    ++ (Layout.wordBytes r.rotation.x.bits ++ (Layout.wordBytes r.rotation.y.bits
    ++ (Layout.wordBytes r.rotation.z.bits ++ (Layout.wordBytes r.rotation.w.bits
    ++ r.interpolation))))))))

theorem BoneRecord.length_bytes {name : List UInt8} {r : BoneRecord} (hn : name.length = Layout.boneNameSize)
    (hi : r.interpolation.length = Layout.interpolationSize) : (r.bytes name).length = 111 := by
  simp [BoneRecord.bytes, hn, hi, Layout.boneNameSize, Layout.interpolationSize]

theorem reads_takeRecord {name : List UInt8} {r : BoneRecord} (hn : name.length = Layout.boneNameSize)
    (hname : fieldName name = r.boneName) (hi : r.interpolation.length = Layout.interpolationSize) :
    Reads takeRecord (r.bytes name) r := by
  refine (reads_takeBytes hn).bind ?_
  refine (reads_takeWord _ _).bind ?_
  refine (reads_takeSingle _ _).bind ?_
  refine (reads_takeSingle _ _).bind ?_
  refine (reads_takeSingle _ _).bind ?_
  refine (reads_takeSingle _ _).bind ?_
  refine (reads_takeSingle _ _).bind ?_
  refine (reads_takeSingle _ _).bind ?_
  refine (reads_takeSingle _ _).bind ?_
  rw [hname]
  exact (reads_takeBytes hi).map fun interpolation => { r with interpolation }

/-- A run of records is read record by record. -/
theorem reads_takeRecords {records : List BoneRecord} {parts : List (List UInt8)}
    (h : List.Forall₂ (Reads takeRecord) parts records) (done : List BoneRecord) :
    Reads (takeRecords records.length done) parts.flatten (done.reverse ++ records) := by
  induction h generalizing done with
  | nil =>
    rw [List.append_nil]
    exact Reads.pure done.reverse
  | cons hr _ ih =>
    refine hr.bind ?_
    simpa using ih (_ :: done)

/-- A section that has a count is read with its records. -/
theorem reads_takeSection {part : StreamPart} {skipRecords : Nat → Decoder Unit} {n : UInt32}
    {bytes : List UInt8} (h : Reads (skipRecords n.toNat) bytes ()) :
    Reads (takeSection part skipRecords) (Layout.wordBytes n ++ bytes) n := by
  have hread := (reads_takeWord part n).bind (f := fun n => do skipRecords n.toNat; return n)
    (h.map fun _ => n)
  intro offset rest
  unfold takeSection
  rw [if_neg (by simp [Layout.wordBytes])]
  exact hread offset rest

theorem reads_emptySection {part : StreamPart} {skipRecords : Nat → Decoder Unit}
    (h : Reads (skipRecords 0) [] ()) :
    Reads (takeSection part skipRecords) (Layout.wordBytes 0) 0 := by
  have hread : Reads (takeSection part skipRecords) (Layout.wordBytes 0 ++ []) 0 := reads_takeSection h
  rwa [List.append_nil] at hread

/-- A section of records of one size, without any. -/
theorem reads_emptySkips (part records : StreamPart) (size : Nat) :
    Reads (takeSection part fun n => skip records (n * size)) (Layout.wordBytes 0) 0 := by
  refine reads_emptySection ?_
  rw [Nat.zero_mul]
  exact fun _ _ => rfl

/-- A stream that is read to its end is a motion. -/
theorem decode_of_reads {bytes : ByteArray} {m : Motion} (h : Reads takeMotion bytes.data.toList m) :
    Motion.decode bytes = .ok m := by
  have hread := h 0 []
  rw [List.append_nil] at hread
  simp [Motion.decode, hread]

end PoseLang

import Mathlib.Order.Monotone.Basic
import PoseLang.Document.Reader

/-!
# Reading on behind an error

A text is read call by call: each call starts with an empty document at the token where the call before it stopped. An
error may stop a call anywhere inside a block, and the next call then takes what is left for the beginning of a
document. However the tokens are, the calls come to rest.

What is proved:

* one call: what it leaves is the end of what it was given (`Reader.run_suffix`), and nothing if it gives a document
  (`Reader.run_of_ok`);
* a call that leaves its tokens as they were is repeated for ever (`Tokens.after_of_fixed`), and one of the first calls
  does so, because every other one reads a token (`Tokens.exists_fixed`);
* so the positions of the calls ascend and stay in the tokens, and the answers settle (`answer_settles`).
-/

namespace PoseLang

variable {limits : InputLimits}

/-! ### One call -/

namespace Reader

variable {stop : Position}

/-- What is left is the end of the tokens. -/
theorem run_suffix (r : Reader) (ts : List Token) : (r.run limits stop ts).2 <:+ ts := by
  induction ts generalizing r with
  | nil => exact List.suffix_rfl
  | cons t ts ih =>
    rw [run]
    cases r.step limits t with
    | next r' => exact (ih r').trans (List.suffix_cons t ts)
    | refuse e => exact List.suffix_rfl
    | reject e => exact List.suffix_cons t ts

/-- A document is given at the end of the tokens only. -/
theorem run_of_ok {r : Reader} {ts : List Token} {D : Document} (h : (r.run limits stop ts).1 = .ok D) :
    (r.run limits stop ts).2 = [] := by
  induction ts generalizing r with
  | nil => rfl
  | cons t ts ih =>
    rw [run] at h ⊢
    cases hstep : r.step limits t with
    | next r' =>
      rw [hstep] at h
      exact ih h
    | refuse e =>
      rw [hstep] at h
      cases h
    | reject e =>
      rw [hstep] at h
      cases h

end Reader

/-! ### Call after call -/

namespace Tokens

variable (limits) in
/-- The tokens that are left after `n` calls. -/
def after (ts : Tokens) : Nat → Tokens
  | 0 => ts
  | n + 1 => ((ts.after n).readDocument limits).2

variable (limits) in
/-- What the call behind `n` others answers. -/
def answer (ts : Tokens) (n : Nat) : Except CompileError Document := ((ts.after limits n).readDocument limits).1

variable (limits) in
/-- Where the call behind `n` others starts: the number of tokens that were read before. The end of the input is at
the number of all tokens. -/
def position (ts : Tokens) (n : Nat) : Nat := ts.list.length - (ts.after limits n).list.length

variable {ts : Tokens}

theorem stop_after (ts : Tokens) (n : Nat) : (ts.after limits n).stop = ts.stop := by
  induction n with
  | zero => rfl
  | succ n ih => exact ih

theorem after_succ_suffix (ts : Tokens) (n : Nat) : (ts.after limits (n + 1)).list <:+ (ts.after limits n).list :=
  Reader.run_suffix {} _

theorem after_suffix (ts : Tokens) (n : Nat) : (ts.after limits n).list <:+ ts.list := by
  induction n with
  | zero => exact List.suffix_rfl
  | succ n ih => exact (ts.after_succ_suffix n).trans ih

theorem position_le (ts : Tokens) (n : Nat) : ts.position limits n ≤ ts.list.length := Nat.sub_le ..

/-- The tokens from the position on are left. -/
theorem after_eq_drop (ts : Tokens) (n : Nat) :
    ts.after limits n = { ts with list := ts.list.drop (ts.position limits n) } := by
  have hlist : (ts.after limits n).list = ts.list.drop (ts.position limits n) :=
    List.suffix_iff_eq_drop.mp (ts.after_suffix n)
  rw [← hlist, ← stop_after ts n]

theorem position_mono (ts : Tokens) : Monotone (ts.position limits) := by
  refine monotone_nat_of_le_succ fun n => ?_
  have hle : (ts.after limits (n + 1)).list.length ≤ (ts.after limits n).list.length :=
    (ts.after_succ_suffix n).length_le
  unfold position
  omega

/-- A call that reads no token is repeated for ever. -/
theorem after_of_fixed {n : Nat} (h : ts.position limits (n + 1) = ts.position limits n) {m : Nat} (hm : n ≤ m) :
    ts.after limits m = ts.after limits n := by
  have hfixed : ts.after limits (n + 1) = ts.after limits n := by
    rw [after_eq_drop, h, ← after_eq_drop]
  induction m, hm using Nat.le_induction with
  | base => rfl
  | succ m _ ih =>
    calc ts.after limits (m + 1)
      _ = ((ts.after limits m).readDocument limits).2 := rfl
      _ = ((ts.after limits n).readDocument limits).2 := by rw [ih]
      _ = ts.after limits n := hfixed

theorem answer_of_fixed {n : Nat} (h : ts.position limits (n + 1) = ts.position limits n) {m : Nat} (hm : n ≤ m) :
    ts.answer limits m = ts.answer limits n := by
  rw [answer, after_of_fixed h hm, ← answer]

/-- As long as calls read tokens, each of them reads one at least. -/
theorem le_position {n : Nat} (h : ∀ m < n, ts.position limits (m + 1) ≠ ts.position limits m) :
    n ≤ ts.position limits n := by
  induction n with
  | zero => exact Nat.zero_le _
  | succ n ih =>
    have hle := ih fun m hm => h m (Nat.lt_succ_of_lt hm)
    have hmono : ts.position limits n ≤ ts.position limits (n + 1) := ts.position_mono (Nat.le_succ n)
    have hne := h n (Nat.lt_succ_self n)
    omega

/-- When there have been as many calls as tokens, some call reads no token. -/
theorem exists_fixed (ts : Tokens) :
    ∃ n ≤ ts.list.length, ts.position limits (n + 1) = ts.position limits n := by
  by_contra hnone
  simp only [not_exists, not_and] at hnone
  have hlarge : ts.list.length + 1 ≤ ts.position limits (ts.list.length + 1) :=
    le_position fun m hm => hnone m (Nat.le_of_lt_succ hm)
  exact absurd (ts.position_le _) (Nat.not_le.mpr hlarge)

/-- Behind a document nothing is left. -/
theorem position_of_ok {n : Nat} {D : Document} (h : ts.answer limits n = .ok D) :
    ts.position limits (n + 1) = ts.list.length := by
  have hlist : (ts.after limits (n + 1)).list = [] := Reader.run_of_ok h
  rw [position, hlist]
  rfl

/-- At the end of the input an empty document is read. -/
theorem answer_of_position {n : Nat} (h : ts.position limits n = ts.list.length) : ts.answer limits n = .ok {} := by
  rw [answer, after_eq_drop, h, List.drop_length]
  rfl

end Tokens

/-- **Repeated calls settle.** Take any tokens and limits, and let calls read documents from the tokens, one behind the
other. The position of the calls starts at 0, never goes back and never passes the end of the input. A call that gives
a document leaves the position at the end, and all calls behind it give the empty document. A call that fails without
reading a token is followed by the same error for ever. When there have been as many calls as tokens, the answer of
the next one, at latest, is that of all later ones. -/
theorem answer_settles (limits : InputLimits) (ts : Tokens) :
    (∀ n, ts.after limits n = { ts with list := ts.list.drop (ts.position limits n) }) ∧
    ts.position limits 0 = 0 ∧ Monotone (ts.position limits) ∧ (∀ n, ts.position limits n ≤ ts.list.length) ∧
    (∀ n D, ts.answer limits n = .ok D →
      ts.position limits (n + 1) = ts.list.length ∧ ∀ m > n, ts.answer limits m = .ok {}) ∧
    (∀ n e, ts.answer limits n = .error e → ts.position limits (n + 1) = ts.position limits n →
      ∀ m ≥ n, ts.answer limits m = .error e) ∧
    ∀ m ≥ ts.list.length, ts.answer limits m = ts.answer limits ts.list.length := by
  refine ⟨ts.after_eq_drop, Nat.sub_self _, ts.position_mono, ts.position_le, ?_, ?_, ?_⟩
  · intro n D h
    have hend := Tokens.position_of_ok h
    refine ⟨hend, fun m hm => Tokens.answer_of_position (Nat.le_antisymm (ts.position_le m) ?_)⟩
    rw [← hend]
    exact ts.position_mono hm
  · intro n e he hfixed m hm
    rw [Tokens.answer_of_fixed hfixed hm, he]
  · intro m hm
    obtain ⟨n, hn, hfixed⟩ : ∃ n ≤ ts.list.length, ts.position limits (n + 1) = ts.position limits n :=
      ts.exists_fixed
    rw [Tokens.answer_of_fixed hfixed (hn.trans hm), Tokens.answer_of_fixed hfixed hn]

/-- No fewer calls suffice: here each of the first two fails behind one token. -/
example :
    let ts : Tokens := ⟨[⟨.keyword "pose", ⟨0, 5, 1, 1⟩⟩, ⟨.keyword "pose", ⟨5, 10, 1, 6⟩⟩], ⟨10, 1, 11⟩⟩
    ts.answer {} 0 = .error (.unexpected .poseName (some (.keyword "pose")) ⟨1, 6⟩) ∧
    ts.answer {} 1 = .error (.unexpected .poseName none ⟨1, 11⟩) ∧
    ts.answer {} 2 = .ok {} := by
  decide

end PoseLang

import Mathlib.Tactic.MkIffOfInductiveProp
import PoseLang.Document.Reader
import PoseLang.Proofs.Lists

/-!
# The grammar

The grammar of documents, as relations between tokens and what they say. There is one relation for
each production,

    statement := BONE ('reset' | clause (',' clause)*) ';'
    clause    := ACTION DIRECTION NUMBER
    keyframe  := NUMBER ':' NAME ';'
    block     := '@pose' NAME '{' statement* '}'
               | '@animation' NAME '{' keyframe* '}'
               | 'main' '{' (NAME ';')* '}'
    document  := block*

and repetition is the relation `Many`. The names of bones are read as they are, the words of a
clause and `reset` in any case of the letters. Tokens that are blocks denote a document (`Denotes`) if
no two of the blocks define one name and at most one of them is `main`.

The relations do not mention the reader, its stages or its limits.
-/

namespace PoseLang.Grammar

/-- Phrases of one kind, one after another. -/
inductive Many {α : Type} (phrase : List Token → α → Prop) : List Token → List α → Prop
  | nil : Many phrase [] []
  | cons {ts us : List Token} {a : α} {as : List α} :
      phrase ts a → Many phrase us as → Many phrase (ts ++ us) (a :: as)

/-! ### Poses -/

/-- `clause := ACTION DIRECTION NUMBER`, where the action has the direction. -/
inductive IsClause : List Token → Clause → Prop
  | mk {a : Action} {d : Direction} {action direction : String} {value : Float} {s₁ s₂ s₃ : Span} :
      sameWord a.word action → sameWord d.word direction → (a.axis? d).isSome →
      IsClause [⟨.ident action, s₁⟩, ⟨.ident direction, s₂⟩, ⟨.number value, s₃⟩] ⟨a, d, value, s₁⟩

/-- `',' clause` -/
inductive IsNextClause : List Token → Clause → Prop
  | mk {ts : List Token} {c : Clause} {s : Span} : IsClause ts c → IsNextClause (⟨.comma, s⟩ :: ts) c

/-- `statement := BONE ('reset' | clause (',' clause)*) ';'` -/
inductive IsStatement : List Token → Statement → Prop
  | reset {b : Bone} {word : String} {s₁ s₂ s₃ : Span} : sameWord "reset" word →
      IsStatement [⟨.ident b.name, s₁⟩, ⟨.ident word, s₂⟩, ⟨.semicolon, s₃⟩] ⟨b, .reset, s₁⟩
  | actions {b : Bone} {ts us : List Token} {c : Clause} {cs : List Clause} {s₁ s₂ : Span} :
      IsClause ts c → Many IsNextClause us cs →
      IsStatement (⟨.ident b.name, s₁⟩ :: (ts ++ (us ++ [⟨.semicolon, s₂⟩]))) ⟨b, .actions (c :: cs), s₁⟩

/-! ### Animations and `main` -/

/-- `keyframe := NUMBER ':' NAME ';'` -/
inductive IsKeyframe : List Token → Keyframe → Prop
  | mk {time : Float} {pose : String} {s₁ s₂ s₃ s₄ : Span} :
      IsKeyframe [⟨.number time, s₁⟩, ⟨.colon, s₂⟩, ⟨.ident pose, s₃⟩, ⟨.semicolon, s₄⟩] ⟨time, pose, s₁⟩

/-- `NAME ';'` -/
inductive IsEntry : List Token → PlayEntry → Prop
  | mk {name : String} {s₁ s₂ : Span} : IsEntry [⟨.ident name, s₁⟩, ⟨.semicolon, s₂⟩] ⟨name, s₁⟩

/-! ### Documents -/

/-- What a block says. -/
inductive Block where
  | pose (pose : Pose)
  | animation (animation : Animation)
  | main (entries : List PlayEntry)

/-- A block: a head, items in braces. -/
inductive IsBlock : List Token → Block → Prop
  | pose {name : String} {body : List Token} {statements : List Statement} {s₁ s₂ s₃ s₄ : Span} :
      Many IsStatement body statements →
      IsBlock (⟨.keyword "pose", s₁⟩ :: ⟨.ident name, s₂⟩ :: ⟨.openBrace, s₃⟩ :: (body ++ [⟨.closeBrace, s₄⟩]))
        (.pose ⟨name, statements, s₁⟩)
  | animation {name : String} {body : List Token} {keyframes : List Keyframe} {s₁ s₂ s₃ s₄ : Span} :
      Many IsKeyframe body keyframes →
      IsBlock
        (⟨.keyword "animation", s₁⟩ :: ⟨.ident name, s₂⟩ :: ⟨.openBrace, s₃⟩ :: (body ++ [⟨.closeBrace, s₄⟩]))
        (.animation ⟨name, keyframes, s₁⟩)
  | main {body : List Token} {entries : List PlayEntry} {s₁ s₂ s₃ : Span} :
      Many IsEntry body entries →
      IsBlock (⟨.ident "main", s₁⟩ :: ⟨.openBrace, s₂⟩ :: (body ++ [⟨.closeBrace, s₃⟩])) (.main entries)

/-- The poses among some blocks. -/
def poses (bs : List Block) : List Pose :=
  bs.filterMap fun
    | .pose p => some p
    | _ => none

/-- The animations among some blocks. -/
def animations (bs : List Block) : List Animation :=
  bs.filterMap fun
    | .animation a => some a
    | _ => none

/-- The `main` blocks among some blocks. -/
def mains (bs : List Block) : List (List PlayEntry) :=
  bs.filterMap fun
    | .main entries => some entries
    | _ => none

@[simp] theorem poses_append (bs bs' : List Block) : poses (bs ++ bs') = poses bs ++ poses bs' :=
  List.filterMap_append

@[simp] theorem animations_append (bs bs' : List Block) :
    animations (bs ++ bs') = animations bs ++ animations bs' :=
  List.filterMap_append

@[simp] theorem mains_append (bs bs' : List Block) : mains (bs ++ bs') = mains bs ++ mains bs' :=
  List.filterMap_append

@[simp] theorem poses_singleton (b : Block) :
    poses [b] = match b with | .pose p => [p] | _ => [] := by
  cases b <;> rfl

@[simp] theorem animations_singleton (b : Block) :
    animations [b] = match b with | .animation a => [a] | _ => [] := by
  cases b <;> rfl

@[simp] theorem mains_singleton (b : Block) :
    mains [b] = match b with | .main entries => [entries] | _ => [] := by
  cases b <;> rfl

/-- No name is defined twice, and there is at most one `main`. -/
@[mk_iff]
structure Distinct (bs : List Block) : Prop where
  poses : ((poses bs).map (·.name)).Nodup
  animations : ((animations bs).map (·.name)).Nodup
  main : (mains bs).length ≤ 1

/-- The document of some blocks: the definitions in order, each under its name. -/
def document (bs : List Block) : Document where
  poses := (poses bs).map fun p => (p.name, p)
  animations := (animations bs).map fun a => (a.name, a)
  main := (mains bs).head?.getD []

/-- `document := block*`: what the tokens say is the document. -/
def Denotes (ts : List Token) (D : Document) : Prop :=
  ∃ bs, Many IsBlock ts bs ∧ Distinct bs ∧ document bs = D

theorem IsNextClause.ne_nil {ts : List Token} {c : Clause} (h : IsNextClause ts c) : ts ≠ [] := by
  cases h
  exact List.cons_ne_nil _ _

theorem IsStatement.ne_nil {ts : List Token} {s : Statement} (h : IsStatement ts s) : ts ≠ [] := by
  cases h <;> exact List.cons_ne_nil _ _

theorem IsKeyframe.ne_nil {ts : List Token} {k : Keyframe} (h : IsKeyframe ts k) : ts ≠ [] := by
  cases h
  exact List.cons_ne_nil _ _

theorem IsEntry.ne_nil {ts : List Token} {e : PlayEntry} (h : IsEntry ts e) : ts ≠ [] := by
  cases h
  exact List.cons_ne_nil _ _

theorem IsBlock.ne_nil {ts : List Token} {b : Block} (h : IsBlock ts b) : ts ≠ [] := by
  cases h <;> exact List.cons_ne_nil _ _

theorem Distinct.left {bs bs' : List Block} (h : Distinct (bs ++ bs')) : Distinct bs := by
  obtain ⟨hposes, hanimations, hmains⟩ := h
  rw [poses_append, List.map_append] at hposes
  rw [animations_append, List.map_append] at hanimations
  rw [mains_append, List.length_append] at hmains
  exact ⟨hposes.of_append_left, hanimations.of_append_left, Nat.le_of_add_right_le hmains⟩

/-! ### Words -/

theorem sameWord_iff {a b : String} :
    sameWord a b = true ↔ a.toList.map Char.toLower = b.toList.map Char.toLower :=
  decide_eq_true_iff

theorem sameWord_self (w : String) : sameWord w w := sameWord_iff.mpr rfl

theorem sameWord_join {a b w : String} (ha : sameWord a w) (hb : sameWord b w) : sameWord a b := by
  rw [sameWord_iff] at *
  rw [ha, hb]

/-- A word names the action whose word it is, and no other. -/
theorem action_ofWord?_iff {w : String} {a : Action} : Action.ofWord? w = some a ↔ sameWord a.word w := by
  have hall : a ∈ Action.all := by cases a <;> decide
  refine find?_eq_some_iff_of_unique hall fun x _ hx ha => ?_
  have hwords : sameWord x.word a.word := sameWord_join hx ha
  revert hwords
  cases x <;> cases a <;> decide

/-- A word names the direction whose word it is, and no other. -/
theorem direction_ofWord?_iff {w : String} {d : Direction} :
    Direction.ofWord? w = some d ↔ sameWord d.word w := by
  have hall : d ∈ Direction.all := by cases d <;> decide
  refine find?_eq_some_iff_of_unique hall fun x _ hx hd => ?_
  have hwords : sameWord x.word d.word := sameWord_join hx hd
  revert hwords
  cases x <;> cases d <;> decide

theorem nodup_boneNames : (Bone.all.map Bone.name).Nodup := by decide +kernel

/-- A name is that of one bone at most. -/
theorem bone_ofName?_iff {name : String} {b : Bone} : Bone.ofName? name = some b ↔ b.name = name := by
  unfold Bone.ofName?
  rw [find?_eq_some_iff_of_unique b.mem_all, decide_eq_true_iff]
  intro x hx hxn hbn
  refine List.inj_on_of_nodup_map nodup_boneNames hx b.mem_all ?_
  rw [of_decide_eq_true hxn, of_decide_eq_true hbn]

/-- No action is called `reset`. -/
theorem not_reset {a : Action} {w : String} (ha : sameWord a.word w) : sameWord "reset" w = false := by
  by_contra hr
  have hwords : sameWord "reset" a.word := sameWord_join (eq_true_of_ne_false hr) ha
  revert hwords
  cases a <;> decide

end PoseLang.Grammar

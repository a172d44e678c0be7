/-!
# Bones

The closed set of bones a pose may address: seven along the body and twelve on either side.
A bone has a name in the language and a name in the skeleton of the player; both are unique.
-/

namespace PoseLang

/-- A side of the body. -/
inductive Side where
  | left
  | right
deriving DecidableEq, Repr, Inhabited

/-- A bone that exists on both sides. -/
inductive Limb where
  | shoulder
  | arm
  | elbow
  | wrist
  | leg
  | knee
  | ankle
  | thumb
  | index
  | middle
  | ring
  | pinky
deriving DecidableEq, Repr, Inhabited

/-- A bone. -/
inductive Bone where
  | base
  | center
  | upperBody
  | lowerBody
  | waist
  | neck
  | head
  /-- A limb on one side. -/
  | paired (limb : Limb) (side : Side)
deriving DecidableEq, Repr, Inhabited

namespace Side

/-- The ending of a bone's name. -/
def suffix : Side → String
  | left => "_l"
  | right => "_r"

/-- The beginning of a bone's name in the player. -/
def playerName : Side → String
  | left => "左"
  | right => "右"

/-- Left comes before right. -/
def place : Side → Fin 2
  | left => 0
  | right => 1

end Side

namespace Limb

/-- The limbs in order. -/
def all : List Limb :=
  [shoulder, arm, elbow, wrist, leg, knee, ankle, thumb, index, middle, ring, pinky]

/-- The name of a limb, without its side. -/
def name : Limb → String
  | shoulder => "shoulder"
  | arm => "arm"
  | elbow => "elbow"
  | wrist => "wrist"
  | leg => "leg"
  | knee => "knee"
  | ankle => "ankle"
  | thumb => "thumb"
  | index => "index"
  | middle => "middle"
  | ring => "ring"
  | pinky => "pinky"

/-- The name of a limb in the player, without its side. -/
def playerName : Limb → String
  | shoulder => "肩"
  | arm => "腕"
  | elbow => "ひじ"
  | wrist => "手首"
  | leg => "足"
  | knee => "ひざ"
  | ankle => "足首"
  | thumb => "親指１"
  | index => "人指１"
  | middle => "中指１"
  | ring => "薬指１"
  | pinky => "小指１"

/-- The place of a limb in the order. -/
def place : Limb → Fin 12
  | shoulder => 0
  | arm => 1
  | elbow => 2
  | wrist => 3
  | leg => 4
  | knee => 5
  | ankle => 6
  | thumb => 7
  | index => 8
  | middle => 9
  | ring => 10
  | pinky => 11

end Limb

namespace Bone

/-- The bones in order; the records of a motion follow it. -/
def all : List Bone :=
  [base, center, upperBody, lowerBody, waist, neck, head]
    ++ Limb.all.flatMap fun limb => [paired limb .left, paired limb .right]

/-- The name of a bone in the language. -/
def name : Bone → String
  | base => "base"
  | center => "center"
  | upperBody => "upper_body"
  | lowerBody => "lower_body"
  | waist => "waist"
  | neck => "neck"
  | head => "head"
  | paired limb side => limb.name ++ side.suffix

/-- The name of a bone in the skeleton of the player. -/
def playerName : Bone → String
  | base => "全ての親"
  | center => "センター"
  | upperBody => "上半身"
  | lowerBody => "下半身"
  | waist => "腰"
  | neck => "首"
  | head => "頭"
  | paired limb side => side.playerName ++ limb.playerName

/-- The place of a bone in the order. -/
def index : Bone → Fin 31
  | base => 0
  | center => 1
  | upperBody => 2
  | lowerBody => 3
  | waist => 4
  | neck => 5
  | head => 6
  | paired limb side => ⟨7 + 2 * limb.place + side.place, by omega⟩

/-- The bone of this name. -/
def ofName? (name : String) : Option Bone := all.find? (·.name = name)

/-- The bone of this name in the player. -/
def ofPlayerName? (name : String) : Option Bone := all.find? (·.playerName = name)

theorem mem_all (b : Bone) : b ∈ all := by
  cases b with
  | paired limb side => cases limb <;> cases side <;> decide
  | _ => decide

theorem nodup_all : all.Nodup := by decide

theorem length_all : all.length = 31 := rfl

theorem getElem?_index (b : Bone) : all[b.index.val]? = some b := by
  cases b with
  | paired limb side => cases limb <;> cases side <;> rfl
  | _ => rfl

theorem index_inj {b c : Bone} (h : b.index = c.index) : b = c := by
  have hb := getElem?_index b
  rw [h, getElem?_index c] at hb
  exact (Option.some.inj hb).symm

end Bone

end PoseLang

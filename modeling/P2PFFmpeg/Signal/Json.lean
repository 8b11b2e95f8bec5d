import P2PFFmpeg.Util.Error
import Mathlib.Data.Rat.Defs
import Mathlib.Data.Rat.Floor
import Mathlib.Algebra.Order.Ring.Rat

namespace P2PFFmpeg.Json

/-- A cJSON tree. Numbers are exact: printing and parsing is the identity on
trees, so a tree stands for the text that is sent. -/
inductive CJson
  | null
  | bool (value : Bool)
  | number (value : ℚ)
  | string (value : String)
  | array (items : List CJson)
  | object (items : List (String × CJson))

abbrev Items := List (String × CJson)

def valueint (v : ℚ) : Int32 :=
  if (int32Max : ℚ) ≤ v then Int32.ofInt int32Max
  else if v ≤ (int32Min : ℚ) then Int32.ofInt int32Min
  else Int32.ofInt (v.num.tdiv v.den)

def sameKey (a b : String) : Bool := a.toList.map Char.toLower == b.toList.map Char.toLower

def getItem (items : Items) (name : String) : Option CJson :=
  (items.find? (fun item => sameKey item.1 name)).map Prod.snd

def getObjectItem : CJson → String → Option CJson
  | .object items, name => getItem items name
  | _, _ => none

def stringItem : Option CJson → Option String
  | some (.string s) => some s
  | _ => none

def numberItem : Option CJson → Option ℚ
  | some (.number v) => some v
  | _ => none

/-- A NULL string makes cJSON_CreateString fail, and then no item is added. -/
def addStringToObject (items : Items) (name : String) : Option String → Items
  | some s => items ++ [(name, .string s)]
  | none => items

def addNumberToObject (items : Items) (name : String) (v : ℚ) : Items :=
  items ++ [(name, .number v)]

theorem getItem_cons (k : String) (v : CJson) (items : Items) (name : String) :
    getItem ((k, v) :: items) name = if sameKey k name then some v else getItem items name := by
  by_cases h : sameKey k name <;> simp [getItem, h]

theorem getItem_append (xs ys : Items) (name : String) :
    getItem (xs ++ ys) name = (getItem xs name).or (getItem ys name) := by
  simp only [getItem, List.find?_append]
  cases xs.find? _ <;> rfl

theorem getItem_nil (name : String) : getItem [] name = none := rfl

/-- Adding an item changes the lookup of its own name only, and of that name
only when it was absent. -/
theorem getItem_addString (items : Items) (k name : String) (s : Option String) :
    getItem (addStringToObject items k s) name =
      (getItem items name).or (if sameKey k name then s.map .string else none) := by
  cases s with
  | none => simp [addStringToObject]
  | some s => simp [addStringToObject, getItem_append, getItem_cons, getItem_nil]

theorem getItem_addNumber (items : Items) (k name : String) (v : ℚ) :
    getItem (addNumberToObject items k v) name =
      (getItem items name).or (if sameKey k name then some (.number v) else none) := by
  simp [addNumberToObject, getItem_append, getItem_cons, getItem_nil]

theorem stringItem_none : stringItem none = none := rfl

theorem stringItem_map (s : Option String) : stringItem (s.map .string) = s := by
  cases s <;> rfl

theorem valueint_intCast (n : Int) : (valueint (n : ℚ)).toInt = max int32Min (min int32Max n) := by
  have hle : ∀ m : Int, (m : ℚ) ≤ (n : ℚ) ↔ m ≤ n := fun m => Int.cast_le
  have hge : ∀ m : Int, (n : ℚ) ≤ (m : ℚ) ↔ n ≤ m := fun m => Int.cast_le
  unfold valueint
  simp only [hle, hge, Rat.num_intCast, Rat.den_intCast]
  split
  · next h =>
      rw [Int32.toInt_ofInt_of_le (by decide) (by decide)]
      simp only [int32Max, int32Min] at h ⊢
      omega
  · next h =>
      split
      · next h' =>
          rw [Int32.toInt_ofInt_of_le (by decide) (by decide)]
          simp only [int32Max, int32Min] at h' ⊢
          omega
      · next h' =>
          simp only [int32Max, int32Min, Nat.cast_one, Int.tdiv_one] at h h' ⊢
          rw [Int32.toInt_ofInt_of_le (by omega) (by omega)]
          omega

theorem valueint_int32 (x : Int32) : valueint (x.toInt : ℚ) = x := by
  apply Int32.toInt.inj
  rw [valueint_intCast]
  have hl := x.le_toInt
  have hu := x.toInt_lt
  simp only [int32Max, int32Min]
  omega

theorem valueint_int64 (x : Int64) :
    (valueint (x.toInt : ℚ)).toInt64 = x ↔ int32Min ≤ x.toInt ∧ x.toInt ≤ int32Max := by
  rw [← Int64.toInt_inj, Int32.toInt_toInt64, valueint_intCast]
  simp only [int32Max, int32Min]
  omega

theorem valueint_uint32 (x : UInt32) : (valueint (x.toNat : ℚ)).toUInt32 = x ↔ (x.toNat : Int) ≤ int32Max := by
  have hv : (valueint (x.toNat : ℚ)).toInt = max int32Min (min int32Max x.toNat) := by
    rw [← valueint_intCast, Int.cast_natCast]
  have hpos : 0 ≤ valueint (x.toNat : ℚ) := by
    rw [Int32.le_iff_toInt_le, hv]
    simp only [int32Max, int32Min, Int32.toInt_zero]
    omega
  rw [← UInt32.toNat_inj, Int32.toNat_toUInt32_of_le hpos, ← Int32.toNat_toInt, hv]
  simp only [int32Max, int32Min]
  omega

end P2PFFmpeg.Json

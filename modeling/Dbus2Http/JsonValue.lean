import Dbus2Http.TypedValue
import Dbus2Http.OrderedMap

set_option autoImplicit false

open Cxx (Str Run throwExn)
open Dbus (IntTy)

/-- A `nlohmann::json`. Integers are stored signed or unsigned, and the members of
an object in the order of their keys. -/
inductive Json
  | null
  | bool (b : Bool)
  | integer (n : IntTy.int64.Val)
  | unsigned (n : IntTy.uint64.Val)
  | float (d : Float)
  | string (s : Str)
  | array (items : List Json)
  | object (members : List (Str × Json))
  | binary (bytes : List UInt8)

namespace Json

/-! ### Kinds -/

def typeName : Json → Str
  | null => "null".toList
  | bool _ => "boolean".toList
  | integer _ | unsigned _ | float _ => "number".toList
  | string _ => "string".toList
  | array _ => "array".toList
  | object _ => "object".toList
  | binary _ => "binary".toList

def isArray : Json → Bool
  | array _ => true
  | _ => false

def isObject : Json → Bool
  | object _ => true
  | _ => false

/-- The number a stored integer is. -/
def asInteger? : Json → Option Int
  | integer n => some n.val
  | unsigned n => some n.val
  | _ => none

/-- `get<double>()` of a number; a stored integer is converted as the language does. -/
def asDouble? : Json → Option Float
  | float d => some d
  | integer n => some (Int64.ofInt n.val).toFloat
  | unsigned n => some (UInt64.ofInt n.val).toFloat
  | _ => none

/-- `get<std::string>()`. -/
def getString : Json → Run Str
  | string s => .ok s
  | other => throwExn .jsonTypeError ("type must be string, but is ".toList ++ other.typeName)

/-! ### Elements and members -/

/-- The member of an object; `contains` asks whether it is there. -/
def member? : Json → Str → Option Json
  | object members, key => members.lookup key
  | _, _ => none

def contains (j : Json) (key : Str) : Bool := (j.member? key).isSome

/-- What a loop over an array or an object visits. -/
def elements : Json → List Json
  | array items => items
  | object members => members.map Prod.snd
  | _ => []

/-- What a loop over `items()` visits: in an array the keys are the positions. -/
def items : Json → List (Str × Json)
  | array items => items.zipIdx.map fun (item, i) => (Cxx.toDecimal i, item)
  | object members => members
  | _ => []

/-- `j[key] = value`. -/
def setMember (j : Json) (key : Str) (value : Json) : Run Json :=
  match j with
  | null => .ok (.object [(key, value)])
  | object members => .ok (.object (OrderedMap.insertEntry key value members))
  | other => throwExn .jsonTypeError
      ("cannot use operator[] with a string argument with ".toList ++ other.typeName)

/-- `j.at(key)`. -/
def memberAt (j : Json) (key : Str) : Run Json :=
  match j with
  | object members =>
      match members.lookup key with
      | some value => .ok value
      | none => throwExn .jsonOutOfRange ("key '".toList ++ key ++ "' not found".toList)
  | other => throwExn .jsonTypeError ("cannot use at() with ".toList ++ other.typeName)

/-- What assignments to the members of a new value make of it: nothing, without any. -/
def ofAssignments : List (Str × Json) → Json
  | [] => .null
  | members => .object (OrderedMap.insertAll members [])

/-- `std::to_string` of a double: the `%f` format, in which a sign is kept on NaN too. -/
def doubleText (d : Float) : Str :=
  if d.isNaN then (if d.toBits < 0x8000000000000000 then "nan".toList else "-nan".toList)
  else d.toString.toList

/-- The member name that is made of a dict key. -/
def keyText : Json → Str
  | bool b => if b then "1".toList else "0".toList
  | integer n => Cxx.toDecimal n.val
  | unsigned n => Cxx.toDecimal (IntTy.int64.wrap n.val).val
  | float d => doubleText d
  | string s => s
  | _ => []

/-- The two loops visit the same values. -/
theorem items_map_snd (j : Json) : j.items.map Prod.snd = j.elements := by
  cases j with
  | array items => simp [Json.items, elements, Function.comp_def]
  | _ => rfl

theorem member?_eq_some {j value : Json} {key : Str} (found : j.member? key = some value) :
    ∃ members, j = .object members ∧ members.lookup key = some value := by
  cases j with
  | object members => exact ⟨members, rfl, found⟩
  | _ => contradiction

/-- What members are set in. -/
def Growing (j : Json) : Prop := j = .null ∨ ∃ members, j = .object members

theorem Growing.setMember {j : Json} (growing : j.Growing) (key : Str) (value : Json) :
    ∃ members, j.setMember key value = .ok (.object members) := by
  rcases growing with rfl | ⟨members, rfl⟩
  · exact ⟨_, rfl⟩
  · exact ⟨_, rfl⟩

theorem growing_object (members : List (Str × Json)) : (object members).Growing :=
  .inr ⟨members, rfl⟩

theorem member?_setMember {result result' value : Json} {key : Str}
    (set : result.setMember key value = .ok result') (wanted : Str) :
    result'.member? wanted = if wanted = key then some value else result.member? wanted := by
  cases result with
  | null =>
      cases set
      by_cases same : wanted = key
      · simp [member?, same]
      · simp [member?, List.lookup_cons, beq_eq_false_iff_ne.mpr same, same]
  | object members =>
      cases set
      by_cases same : wanted = key
      · rw [if_pos same, same]
        exact OrderedMap.lookup_insertEntry_self key value members
      · rw [if_neg same]
        exact OrderedMap.lookup_insertEntry_of_ne same value members
  | _ => exact absurd set (Cxx.throwExn_ne_ok _ _ _)

/-- One more assignment. -/
theorem setMember_ofAssignments (done : List (Str × Json)) (name : Str) (value : Json) :
    (ofAssignments done).setMember name value = .ok (ofAssignments (done ++ [(name, value)])) := by
  cases done with
  | nil => rfl
  | cons first others =>
      change Except.ok (object _) = Except.ok (object _)
      rw [OrderedMap.insertAll, OrderedMap.insertAll, List.foldl_append]
      rfl

/-- Under pairwise distinct names, and only then, each of some assignments makes a member
of its own. -/
theorem ofAssignments_object_iff (members : List (Str × Json)) :
    (∃ sorted, ofAssignments members = .object sorted ∧ sorted.length = members.length) ↔
      members ≠ [] ∧ (members.map Prod.fst).Nodup := by
  cases members with
  | nil => simp [ofAssignments]
  | cons first rest =>
      constructor
      · rintro ⟨sorted, same, length⟩
        rw [← Json.object.inj same, OrderedMap.insertAll_length_iff] at length
        exact ⟨List.cons_ne_nil _ _, length⟩
      · rintro ⟨_, distinct⟩
        exact ⟨_, rfl, (OrderedMap.insertAll_length_iff _).mpr distinct⟩

theorem member?_ofAssignments {members : List (Str × Json)} (distinct : (members.map Prod.fst).Nodup)
    {member : Str × Json} (inside : member ∈ members) :
    (ofAssignments members).member? member.1 = some member.2 := by
  cases members with
  | nil => cases inside
  | cons first rest => exact OrderedMap.lookup_insertAll distinct inside

theorem member?_ofAssignments_eq {members : List (Str × Json)}
    (distinct : (members.map Prod.fst).Nodup) (key : Str) :
    (ofAssignments members).member? key = members.lookup key := by
  cases members with
  | nil => rfl
  | cons first rest => exact OrderedMap.lookup_insertAll_eq distinct key

theorem memberAt_of_member? {j value : Json} {key : Str} (found : j.member? key = some value) :
    j.memberAt key = .ok value := by
  obtain ⟨members, rfl, stored⟩ := member?_eq_some found
  simp only [memberAt, stored]

@[simp] theorem ofAssignments_eq_null_iff (members : List (Str × Json)) :
    ofAssignments members = .null ↔ members = [] := by
  cases members <;> simp [ofAssignments]

/-! ### Size -/

/-- The length of a string, which a variant takes for a signature. -/
def textLength : Json → Nat
  | string s => s.length
  | _ => 0

/-- A value weighs more than its members together with the signatures they spell. -/
def weight : Json → Nat
  | array items => 1 + itemsWeight items
  | object members => 1 + membersWeight members
  | _ => 1
where
  itemsWeight : List Json → Nat
    | [] => 0
    | item :: rest => item.weight + itemsWeight rest
  membersWeight : List (Str × Json) → Nat
    | [] => 0
    | (_, value) :: rest => value.weight + value.textLength + membersWeight rest

theorem weight_pos (j : Json) : 0 < j.weight := by
  cases j <;> simp only [weight] <;> omega

theorem itemsWeight_le {items : List Json} {item : Json} (inside : item ∈ items) :
    item.weight ≤ weight.itemsWeight items := by
  induction items with
  | nil => simp at inside
  | cons first rest ih =>
      simp only [weight.itemsWeight]
      rcases List.mem_cons.mp inside with same | later
      · rw [same]
        omega
      · have := ih later
        omega

theorem membersWeight_le {members : List (Str × Json)} {member : Str × Json}
    (inside : member ∈ members) :
    member.2.weight + member.2.textLength ≤ weight.membersWeight members := by
  induction members with
  | nil => simp at inside
  | cons first rest ih =>
      simp only [weight.membersWeight]
      rcases List.mem_cons.mp inside with same | later
      · rw [← same]
        omega
      · have := ih later
        omega

theorem element_weight_lt {j item : Json} (inside : item ∈ j.elements) : item.weight < j.weight := by
  cases j with
  | array items =>
      have light : item.weight ≤ weight.itemsWeight items := itemsWeight_le inside
      simp only [weight]
      omega
  | object members =>
      obtain ⟨member, found, same⟩ := List.mem_map.mp inside
      have light := membersWeight_le found
      rw [← same]
      simp only [weight]
      omega
  | _ => simp [elements] at inside

theorem item_weight_lt {j : Json} {item : Str × Json} (inside : item ∈ j.items) :
    item.2.weight < j.weight := by
  apply element_weight_lt
  rw [← items_map_snd]
  exact List.mem_map_of_mem inside

/-- Two members of one object, under different keys, weigh less than the object. -/
theorem members_weight_lt {members : List (Str × Json)} {key other : Str} {first second : Json}
    (different : key ≠ other) (found : members.lookup key = some first)
    (found' : members.lookup other = some second) :
    first.textLength + second.weight < (Json.object members).weight := by
  have split : first.textLength + second.weight ≤ weight.membersWeight members := by
    induction members with
    | nil => simp at found
    | cons member rest ih =>
        obtain ⟨name, value⟩ := member
        simp only [List.lookup_cons] at found found'
        simp only [weight.membersWeight]
        by_cases same : key = name
        · have skip : (other == name) = false :=
            beq_eq_false_iff_ne.mpr (fun equal => different (same.trans equal.symm))
          have later := membersWeight_le (OrderedMap.mem_of_lookup_eq_some (by simpa [skip] using found'))
          have here : value = first := by simpa [same] using found
          simp only at later
          rw [here]
          omega
        · have skip : (key == name) = false := beq_eq_false_iff_ne.mpr same
          simp only [skip] at found
          by_cases here : other = name
          · have later := membersWeight_le (OrderedMap.mem_of_lookup_eq_some found)
            have value_eq : value = second := by simpa [here] using found'
            simp only at later
            rw [value_eq]
            omega
          · have skip' : (other == name) = false := beq_eq_false_iff_ne.mpr here
            simp only [skip'] at found'
            have := ih found found'
            omega
  simp only [weight]
  omega

/-! ### Equality of numbers -/

/-- A value up to the way its integers are stored: what is not negative is stored
unsigned, as a parser stores it. -/
def canon : Json → Json
  | integer n => if inside : IntTy.uint64.Holds n.val then .unsigned ⟨n.val, inside⟩ else .integer n
  | array items => .array (canonItems items)
  | object members => .object (canonMembers members)
  | other => other
where
  canonItems : List Json → List Json
    | [] => []
    | item :: rest => item.canon :: canonItems rest
  canonMembers : List (Str × Json) → List (Str × Json)
    | [] => []
    | (key, value) :: rest => (key, value.canon) :: canonMembers rest

theorem canonItems_eq (items : List Json) : canon.canonItems items = items.map canon := by
  induction items with
  | nil => rfl
  | cons item rest ih => rw [canon.canonItems, ih, List.map_cons]

theorem canonMembers_eq (members : List (Str × Json)) :
    canon.canonMembers members = members.map fun member => (member.1, member.2.canon) := by
  induction members with
  | nil => rfl
  | cons member rest ih =>
      obtain ⟨key, value⟩ := member
      rw [canon.canonMembers, ih, List.map_cons]

@[simp] theorem canon_array (items : List Json) : (Json.array items).canon = .array (items.map canon) := by
  rw [canon, canonItems_eq]

@[simp] theorem canon_object (members : List (Str × Json)) :
    (Json.object members).canon = .object (members.map fun member => (member.1, member.2.canon)) := by
  rw [canon, canonMembers_eq]

end Json

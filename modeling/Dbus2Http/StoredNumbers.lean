import Dbus2Http.Rand2Json

set_option autoImplicit false

/-! A request whose numbers are stored another way is filled as well. -/

namespace Json

open Cxx (Str)

/-! ### What a value is read for -/

section Canon

variable (j : Json)

@[simp] theorem asInteger?_canon : j.canon.asInteger? = j.asInteger? := by
  cases j with
  | integer n =>
      rw [canon]
      split_ifs <;> rfl
  | _ => rfl

/-- A number stays a number. -/
@[simp] theorem isSome_asDouble?_canon : j.canon.asDouble?.isSome = j.asDouble?.isSome := by
  cases j with
  | integer n =>
      rw [canon]
      split_ifs <;> rfl
  | _ => rfl

@[simp] theorem isArray_canon : j.canon.isArray = j.isArray := by
  cases j with
  | integer n =>
      rw [canon]
      split_ifs <;> rfl
  | _ => rfl

@[simp] theorem isObject_canon : j.canon.isObject = j.isObject := by
  cases j with
  | integer n =>
      rw [canon]
      split_ifs <;> rfl
  | _ => rfl

@[simp] theorem items_canon : j.canon.items = j.items.map fun item => (item.1, item.2.canon) := by
  cases j with
  | integer n =>
      rw [canon]
      split_ifs <;> rfl
  | array elements =>
      rw [canon_array, Json.items, Json.items, List.zipIdx_map, List.map_map, List.map_map]
      rfl
  | object members => rw [canon_object]; rfl
  | _ => rfl

@[simp] theorem elements_canon : j.canon.elements = j.elements.map canon := by
  rw [← items_map_snd, ← items_map_snd, items_canon, List.map_map, List.map_map]
  rfl

@[simp] theorem member?_canon (key : Str) : j.canon.member? key = (j.member? key).map canon := by
  cases j with
  | integer n =>
      rw [canon]
      split_ifs <;> rfl
  | object members =>
      rw [canon_object, member?, member?]
      induction members with
      | nil => rfl
      | cons member rest ih =>
          rw [List.map_cons, List.lookup_cons, List.lookup_cons, ih]
          split <;> rfl
  | _ => rfl

variable {j}

@[simp] theorem canon_eq_string {s : Str} : j.canon = .string s ↔ j = .string s := by
  cases j with
  | integer n =>
      rw [canon]
      split_ifs <;> simp
  | array items => simp
  | object members => simp
  | _ => rfl

@[simp] theorem canon_eq_bool {b : Bool} : j.canon = .bool b ↔ j = .bool b := by
  cases j with
  | integer n =>
      rw [canon]
      split_ifs <;> simp
  | array items => simp
  | object members => simp
  | _ => rfl

@[simp] theorem canon_eq_null : j.canon = .null ↔ j = .null := by
  cases j with
  | integer n =>
      rw [canon]
      split_ifs <;> simp
  | array items => simp
  | object members => simp
  | _ => rfl

theorem canon_eq_array {items : List Json} (same : j.canon = .array items) :
    ∃ stored, j = .array stored ∧ stored.map canon = items := by
  have array : j.isArray = true := by rw [← isArray_canon, same]; rfl
  cases j with
  | array stored =>
      rw [canon_array] at same
      exact ⟨stored, rfl, Json.array.inj same⟩
  | _ => cases array

/-- A container stays one. -/
theorem container_of_canon {back : Json} (same : back.canon = j.canon)
    (container : j.isArray || j.isObject) : back.isArray || back.isObject := by
  rwa [← isArray_canon, ← isObject_canon, same, isArray_canon, isObject_canon]

/-- The member of a value that is stored another way is that member, stored another way. -/
theorem member?_of_canon {back value : Json} (same : back.canon = j.canon) {key : Str}
    (found : j.member? key = some value) :
    ∃ value', back.member? key = some value' ∧ value'.canon = value.canon := by
  have both : (back.member? key).map canon = some value.canon := by
    rw [← member?_canon, same, member?_canon, found]
    rfl
  exact Option.map_eq_some_iff.mp both

end Canon

end Json

namespace Dbus2Http.Rand2Json

open Dbus (Ty Value)
open Json2Message (Part DictPart Filled Converted)

/-! ### Filling from it -/

/-- A list whose images are those of the keys of another one has parts like those. -/
theorem exists_rebuilt {α β γ τ : Type} (key : α → β) (kind : α → τ) (Good : α → Prop) {up : β → γ}
    {xs : List α} {items : List β} (same : items.map up = xs.map fun x => up (key x))
    (each : ∀ x ∈ xs, ∀ item, up item = up (key x) →
      ∃ x' : α, key x' = item ∧ kind x' = kind x ∧ Good x') :
    ∃ xs' : List α, items = xs'.map key ∧ xs'.map kind = xs.map kind ∧ ∀ x' ∈ xs', Good x' := by
  induction xs generalizing items with
  | nil => exact ⟨[], List.map_eq_nil_iff.mp same, rfl, by simp⟩
  | cons x xs ih =>
      cases items with
      | nil => cases same
      | cons item items =>
          obtain ⟨head, tail⟩ := List.cons.inj same
          obtain ⟨x', here, kinds, good⟩ := each x List.mem_cons_self item head
          obtain ⟨xs', rest, alike, others⟩ :=
            ih tail fun y inside => each y (List.mem_cons_of_mem x inside)
          refine ⟨x' :: xs', by rw [List.map_cons, here, rest], ?_, List.forall_mem_cons.mpr ⟨good, others⟩⟩
          rw [List.map_cons, List.map_cons, kinds, alike]

theorem converted_canon {t : Dbus.IntTy} {json back : Json} {n : t.Val} (same : back.canon = json.canon)
    (read : Converted t json n) : Converted t back n := by
  rcases read with ⟨k, stored, wrapped⟩ | ⟨text, k, rfl, read⟩
  · rw [← Json.asInteger?_canon, ← same, Json.asInteger?_canon] at stored
    exact .inl ⟨k, stored, wrapped⟩
  · exact .inr ⟨text, k, Json.canon_eq_string.mp same, read⟩

/-- The type of a part and the types of its values. -/
def partTypes (p : Part) : Ty × List Ty := (p.type, p.values.map Value.typeOf)

theorem type_of_partTypes {parts parts' : List Part} (alike : parts'.map partTypes = parts.map partTypes) :
    parts'.map Part.type = parts.map Part.type ∧
      (parts'.flatMap Part.values).map Value.typeOf = (parts.flatMap Part.values).map Value.typeOf := by
  have first (parts : List Part) : parts.map Part.type = (parts.map partTypes).map Prod.fst := by
    rw [List.map_map]
    rfl
  have second (parts : List Part) : (parts.flatMap Part.values).map Value.typeOf =
      (parts.map partTypes).flatMap Prod.snd := by
    rw [List.map_flatMap, List.flatMap_map]
    rfl
  exact ⟨by rw [first, first, alike], by rw [second, second, alike]⟩

theorem singleton_of_typeOf {v : Value} {vs : List Value}
    (types : vs.map Value.typeOf = [v].map Value.typeOf) : ∃ v', vs = [v'] ∧ v'.typeOf = v.typeOf :=
  List.map_eq_singleton_iff.mp types

/-- Where values are filled from JSON, values of the same types are filled from the same JSON with its
numbers stored another way. -/
theorem filled_canon {ts : List Ty} {json : Json} {vs : List Value} (filled : Filled Converted ts json vs) :
    ∀ back : Json, back.canon = json.canon →
      ∃ vs', Filled Converted ts back vs' ∧ vs'.map Value.typeOf = vs.map Value.typeOf := by
  induction filled with
  | none json => exact fun back _ => ⟨[], .none back, rfl⟩
  | several parts several each ih =>
      intro back same
      rw [Json.canon_array, List.map_map] at same
      obtain ⟨items, rfl, images⟩ := Json.canon_eq_array same
      obtain ⟨parts', rfl, alike, good⟩ := exists_rebuilt Part.json partTypes
        (fun p => Filled Converted [p.type] p.json p.values) images fun p inside item equal => by
          obtain ⟨vs', filled, types⟩ := ih p inside item equal
          exact ⟨⟨p.type, item, vs'⟩, rfl, Prod.ext rfl types, filled⟩
      obtain ⟨types, values⟩ := type_of_partTypes alike
      have length : parts'.length = parts.length := by simpa using congrArg List.length types
      rw [← types]
      exact ⟨_, .several parts' (length ▸ several) good, values⟩
  | bool b => exact fun back same => ⟨[.bool b], by rw [Json.canon_eq_bool.mp same]; exact .bool b, rfl⟩
  | int read => exact fun back same => ⟨_, .int (converted_canon same read), rfl⟩
  | @double json d read =>
      intro back same
      have number : back.asDouble?.isSome := by
        rw [← Json.isSome_asDouble?_canon, same, Json.isSome_asDouble?_canon, read]
        rfl
      obtain ⟨d', read'⟩ := Option.isSome_iff_exists.mp number
      exact ⟨[.double d'], .double read', rfl⟩
  | string s => exact fun back same => ⟨_, by rw [Json.canon_eq_string.mp same]; exact .string s, rfl⟩
  | unixFd json => exact fun back _ => ⟨[], .unixFd back, rfl⟩
  | variant single named member type filled ih =>
      intro back same
      obtain ⟨text, named', isText⟩ := Json.member?_of_canon same named
      rw [Json.canon_eq_string.mp isText] at named'
      obtain ⟨held', member', equal⟩ := Json.member?_of_canon same member
      obtain ⟨vs', filled', types⟩ := ih held' equal
      obtain ⟨content', rfl, type'⟩ := singleton_of_typeOf types
      exact ⟨[.variant content'], .variant single named' member' (type'.trans type) filled', rfl⟩
  | @array elem json element splits plain container parts visited types each ih =>
      intro back same
      have images : back.elements.map Json.canon = parts.map fun p => p.json.canon := by
        rw [← Json.elements_canon, same, Json.elements_canon, visited, List.map_map]
        rfl
      obtain ⟨parts', visited', alike, good⟩ := exists_rebuilt Part.json partTypes
        (fun p => p.type = elem ∧ Filled Converted [p.type] p.json p.values) images
        fun p inside item equal => by
          obtain ⟨vs', filled, kept⟩ := ih p inside item equal
          exact ⟨⟨p.type, item, vs'⟩, rfl, Prod.ext rfl kept, types p inside, filled⟩
      have container' := Json.container_of_canon same container
      exact ⟨_, .array element splits plain container' parts' visited' (fun p inside => (good p inside).1)
        fun p inside => (good p inside).2, rfl⟩
  | @dict key value json element container parts visited types keys values _ ih =>
      intro back same
      have images : (back.items.map fun item => (item.1, item.2.canon)) =
          parts.map fun p => (p.name, p.json.canon) := by
        rw [← Json.items_canon, same, Json.items_canon, visited, List.map_map]
        rfl
      obtain ⟨parts', visited', -, good⟩ := exists_rebuilt (fun p : DictPart => (p.name, p.json))
        (fun _ => ()) (fun p => (p.key.typeOf = key ∧ p.value.typeOf = value) ∧
          Filled Converted [key] (.string p.name) [p.key] ∧ Filled Converted [value] p.json [p.value])
        images fun p inside item equal => by
          obtain ⟨name, json'⟩ := item
          obtain ⟨sameName, sameJson⟩ := Prod.mk.inj equal
          obtain ⟨vs', filled, kept⟩ := ih p inside json' sameJson
          obtain ⟨v', rfl, type⟩ := singleton_of_typeOf kept
          exact ⟨⟨p.name, json', p.key, v'⟩, Prod.ext sameName.symm rfl, rfl,
            ⟨(types p inside).1, type.trans (types p inside).2⟩, keys p inside, filled⟩
      have container' := Json.container_of_canon same container
      exact ⟨_, .dict element container' parts' visited' (fun p inside => (good p inside).1)
        (fun p inside => (good p inside).2.1) fun p inside => (good p inside).2.2, rfl⟩
  | struct single types filled ih =>
      intro back same
      obtain ⟨vs', filled', types'⟩ := ih back same
      refine ⟨[.struct vs'], .struct single (types'.trans types) filled', ?_⟩
      rw [List.map_singleton, List.map_singleton, Value.typeOf_struct, Value.typeOf_struct, types']

/-- What is a request for some arguments still is one when it is read back from its text. -/
theorem RequestFor.canon {args : List Argument} {request back : Json} (complete : RequestFor args request)
    (same : back.canon = request.canon) : RequestFor args back where
  object := by
    rcases complete.object with ⟨rfl, none⟩ | ⟨members, rfl⟩
    · exact .inl ⟨Json.canon_eq_null.mp same, none⟩
    · have object : back.isObject = true := by
        rw [← Json.isObject_canon, same, Json.isObject_canon]
        rfl
      cases back with
      | object members' => exact .inr ⟨members', rfl⟩
      | _ => cases object
  member arg inside := by
    obtain ⟨json, ts, vs, member, type, types, filled⟩ := complete.member arg inside
    obtain ⟨json', member', equal⟩ := Json.member?_of_canon same member
    obtain ⟨vs', filled', -⟩ := filled_canon filled json' equal
    exact ⟨json', ts, vs', member', type, types, filled'⟩

end Dbus2Http.Rand2Json

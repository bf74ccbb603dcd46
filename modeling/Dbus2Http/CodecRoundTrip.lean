import Dbus2Http.ExtractedValues
import Dbus2Http.FilledValues
import Mathlib.Data.List.Nodup

set_option autoImplicit false

namespace Dbus2Http

open Cxx (Str)
open Dbus (IntTy Basic Ty Value ZeroFree Draft LawfulReader LawfulWriter)
open Message2Json (Env Scalar ArrayRead Reads Extracts EntryPart ofInt ofBasic)
open Json2Message (Part DictPart Filled Converted)

/-! ### What the codec carries -/

/-- The types of dict keys whose texts can be read back. -/
def KeyCode (key : Basic) : Prop := key = .string ∨ ∃ t, key = .int t

/-- The types both directions agree on. -/
inductive Codec : Ty → Prop
  | basic {b : Basic} (scalar : Scalar b) : Codec (.basic b)
  | variant : Codec .variant
  | struct {fields : List Ty} (some : fields ≠ []) (each : ∀ field ∈ fields, Codec field) :
      Codec (.struct fields)
  | scalars {b : Basic} (scalar : Scalar b) : Codec (.array (.basic b))
  | structs {fields : List Ty} (codec : Codec (.struct fields)) : Codec (.array (.struct fields))
  | dict {key : Basic} {value : Ty} (named : KeyCode key) (codec : Codec value) :
      Codec (.array (.entry (.basic key) value))

/-- The values of these types whose dicts have entries, under distinct keys. -/
inductive Codable : Value → Prop
  | basic {v : Value} {b : Basic} (type : v.typeOf = .basic b) (scalar : Scalar b) : Codable v
  | variant {content : Value} (inner : Codable content) : Codable (.variant content)
  | struct {fields : List Value} (some : fields ≠ []) (each : ∀ field ∈ fields, Codable field) :
      Codable (.struct fields)
  | array {elem : Ty} {items : List Value} (codec : Codec (.array elem))
      (plain : ∀ key value, elem ≠ .entry key value) (types : ∀ item ∈ items, item.typeOf = elem)
      (each : ∀ item ∈ items, Codable item) : Codable (.array elem items)
  | dict {key : Basic} {value : Ty} (codec : Codec (.array (.entry (.basic key) value)))
      (entries : List (Value × Value)) (some : entries ≠ [])
      (types : ∀ e ∈ entries, e.1.typeOf = .basic key ∧ e.2.typeOf = value)
      (distinct : (entries.map Prod.fst).Nodup) (each : ∀ e ∈ entries, Codable e.2) :
      Codable (.array (.entry (.basic key) value) (entries.map fun e => .entry e.1 e.2))

/-- The JSON values that conform to these types. -/
inductive Conforms : Ty → Json → Prop
  | bool (b : Bool) : Conforms (.basic .bool) (.bool b)
  | int {t : IntTy} {json : Json} {n : Int} (stored : json.asInteger? = some n)
      (inRange : t.Holds n) : Conforms (.basic (.int t)) json
  | double (d : Float) : Conforms (.basic .double) (.float d)
  | string (s : ZeroFree) : Conforms (.basic .string) (.string s.val)
  | variant {t : Ty} {held : Json} (conforms : Conforms t held) :
      Conforms .variant (.object [("value".toList, held), ("variant".toList, .string t.text)])
  | single {t : Ty} {json : Json} (conforms : Conforms t json) : Conforms (.struct [t]) json
  | struct (parts : List (Ty × Json)) (several : 1 < parts.length)
      (each : ∀ p ∈ parts, Conforms p.1 p.2) :
      Conforms (.struct (parts.map Prod.fst)) (.array (parts.map Prod.snd))
  | array {elem : Ty} {items : List Json} (codec : Codec (.array elem))
      (plain : ∀ key value, elem ≠ .entry key value) (each : ∀ item ∈ items, Conforms elem item) :
      Conforms (.array elem) (.array items)
  | dict {key : Basic} {value : Ty} {members : List (Str × Json)}
      (codec : Codec (.array (.entry (.basic key) value))) (some : members ≠ [])
      (ascending : OrderedMap.Ascending members)
      (keys : ∀ m ∈ members, ∃ k : Value, k.typeOf = .basic key ∧ m.1 = (ofBasic k).keyText)
      (each : ∀ m ∈ members, Conforms value m.2) :
      Conforms (.array (.entry (.basic key) value)) (.object members)

theorem KeyCode.scalar {key : Basic} (named : KeyCode key) : Scalar key := by
  rcases named with same | ⟨t, same⟩
  · rw [same]
    trivial
  · rw [same]
    trivial

theorem Codec.single {t : Ty} (codec : Codec t) : t.Single := by
  induction codec with
  | basic => simp
  | variant => simp
  | struct some each ih => exact (Ty.single_struct _).mpr ⟨some, ih⟩
  | scalars => exact (Ty.single_array _).mpr (Ty.single_basic _).element
  | structs codec ih => exact (Ty.single_array _).mpr ih.element
  | dict named codec ih => exact (Ty.single_array _).mpr ((Ty.element_entry _ _).mpr ⟨rfl, ih⟩)

theorem Codec.splits {t : Ty} (codec : Codec t) : SignatureUtils.Splits t := by
  cases codec with
  | basic scalar => exact Scalar.splits scalar
  | _ => trivial

theorem Codec.named {key : Basic} {value : Ty} (codec : Codec (.array (.entry (.basic key) value))) :
    KeyCode key := by
  cases codec with
  | dict named => exact named

/-- Where an array is carried, its elements are read and filled one by one. -/
theorem Codec.arrayRead {elem : Ty} (codec : Codec (.array elem))
    (plain : ∀ key value, elem ≠ .entry key value) {env : Env}
    (off : env.config.binarySupport = false) : ArrayRead env elem := by
  cases codec with
  | scalars scalar => exact ⟨scalar, by simp [off]⟩
  | structs codec => trivial
  | dict => exact absurd rfl (plain _ _)

theorem Codable.codec {v : Value} (codable : Codable v) : Codec v.typeOf := by
  induction codable with
  | basic type scalar => exact type ▸ .basic scalar
  | variant => exact .variant
  | struct some each ih =>
      rw [Value.typeOf_struct]
      refine .struct (by simpa using some) ?_
      intro t inside
      obtain ⟨field, member, same⟩ := List.mem_map.mp inside
      exact same ▸ ih field member
  | array codec => exact codec
  | dict codec => exact codec

theorem Conforms.codec {t : Ty} {json : Json} (conforms : Conforms t json) : Codec t := by
  induction conforms with
  | bool => exact .basic trivial
  | int => exact .basic trivial
  | double => exact .basic trivial
  | string => exact .basic trivial
  | variant => exact .variant
  | single conforms ih => exact .struct (by simp) (by simpa using ih)
  | struct parts several each ih =>
      refine .struct ?_ ?_
      · intro none
        rw [List.map_eq_nil_iff] at none
        simp [none] at several
      · intro t inside
        obtain ⟨p, member, same⟩ := List.mem_map.mp inside
        exact same ▸ ih p member
  | array codec => exact codec
  | dict codec => exact codec

/-! ### Basic values and keys -/

theorem holds_uint64 {t : IntTy} (unsigned : t.signed = false) {n : Int} (inside : t.Holds n) :
    IntTy.uint64.Holds n := by
  obtain ⟨lower, upper⟩ := inside
  have limits : IntTy.uint64.min ≤ t.min ∧ t.max ≤ IntTy.uint64.max := by
    cases t with
    | int16 => contradiction
    | int32 => contradiction
    | int64 => contradiction
    | _ => decide
  constructor
  · omega
  · omega

/-- An integer is stored as the integer it is. -/
theorem asInteger?_ofInt (t : IntTy) (n : t.Val) : (ofInt t n).asInteger? = some n.val := by
  unfold ofInt
  by_cases signed : t.signed = true
  · have narrow : t ≠ .uint64 := by
      intro wide
      rw [wide] at signed
      contradiction
    rw [if_pos signed]
    exact congrArg some
      ((IntTy.wrap_eq_iff _ _).mpr (Json2Message.holds_int64 narrow n.property))
  · rw [if_neg signed]
    have unsigned : t.signed = false := by simpa using signed
    exact congrArg some ((IntTy.wrap_eq_iff _ _).mpr (holds_uint64 unsigned n.property))

theorem keyText_of_asInteger? {json : Json} {n : Int} (stored : json.asInteger? = some n) :
    json.keyText = Cxx.toDecimal (IntTy.int64.wrap n).val := by
  cases json with
  | integer m =>
      have same : m.val = n := Option.some.inj stored
      rw [← same, IntTy.wrap_val]
      rfl
  | unsigned m =>
      have same : m.val = n := Option.some.inj stored
      rw [← same]
      rfl
  | _ => contradiction

/-- How an integer is stored does not matter for the value up to that. -/
theorem canon_of_asInteger? {first second : Json} {n : Int} (one : first.asInteger? = some n)
    (two : second.asInteger? = some n) : first.canon = second.canon := by
  have canon : ∀ {json : Json}, json.asInteger? = some n → json.canon =
      if inside : IntTy.uint64.Holds n then .unsigned ⟨n, inside⟩
      else .integer (IntTy.int64.wrap n) := by
    intro json stored
    cases json with
    | integer m =>
        have same : m.val = n := Option.some.inj stored
        subst same
        rw [IntTy.wrap_val]
        rfl
    | unsigned m =>
        have same : m.val = n := Option.some.inj stored
        subst same
        rw [dif_pos m.property]
        rfl
    | _ => contradiction
  rw [canon one, canon two]

theorem wrap_int64_injective {t : IntTy} {n m : t.Val}
    (same : (IntTy.int64.wrap n.val).val = (IntTy.int64.wrap m.val).val) : n = m := by
  by_cases wide : t = .uint64
  · subst wide
    rw [← Json2Message.wrap_uint64_int64 n, same, Json2Message.wrap_uint64_int64]
  · rw [IntTy.wrap_of_holds (Json2Message.holds_int64 wide n.property),
      IntTy.wrap_of_holds (Json2Message.holds_int64 wide m.property)] at same
    exact Subtype.ext same

/-- Two keys of one type with the same text are the same key. -/
theorem KeyCode.text_injective {key : Basic} (named : KeyCode key) {k l : Value}
    (kType : k.typeOf = .basic key) (lType : l.typeOf = .basic key)
    (same : (ofBasic k).keyText = (ofBasic l).keyText) : k = l := by
  rcases named with text | ⟨t, number⟩
  · subst text
    cases k <;> simp [Value.typeOf] at kType
    cases l <;> simp [Value.typeOf] at lType
    exact congrArg Value.string (Subtype.ext same)
  · subst number
    cases k <;> simp [Value.typeOf] at kType
    cases l <;> simp [Value.typeOf] at lType
    rename_i u n u' m
    subst kType
    subst lType
    have texts : Cxx.toDecimal (IntTy.int64.wrap n.val).val =
        Cxx.toDecimal (IntTy.int64.wrap m.val).val := by
      rw [← keyText_of_asInteger? (asInteger?_ofInt _ n), ← keyText_of_asInteger? (asInteger?_ofInt _ m)]
      exact same
    rw [wrap_int64_injective (Cxx.toDecimal_injective texts)]

theorem filled_basic {v : Value} {b : Basic} (type : v.typeOf = .basic b) (scalar : Scalar b) :
    Filled Converted [.basic b] (ofBasic v) [v] := by
  cases v with
  | bool b =>
      cases type
      exact .bool b
  | int t n =>
      cases type
      exact .int (.inl ⟨n.val, asInteger?_ofInt t n, (IntTy.wrap_val t n).symm⟩)
  | double d =>
      cases type
      exact .double rfl
  | string s =>
      cases type
      have filled : Filled Converted [.basic .string] (.string s.val) [.string (Dbus.zeroFree s.val)] :=
        .string s.val
      rwa [Dbus.zeroFree_val] at filled
  | objectPath s =>
      cases type
      exact scalar.elim
  | signature s =>
      cases type
      exact scalar.elim
  | unixFd fd =>
      cases type
      exact scalar.elim
  | _ => simp [Value.typeOf] at type

/-- The text made of a key is read back as the key. -/
theorem KeyCode.filled {key : Basic} (named : KeyCode key) {k : Value}
    (type : k.typeOf = .basic key) :
    Filled Converted [.basic key] (.string (ofBasic k).keyText) [k] := by
  rcases named with text | ⟨t, number⟩
  · subst text
    cases k <;> simp [Value.typeOf] at type
    rename_i s
    exact @filled_basic (.string s) .string rfl trivial
  · subst number
    cases k <;> simp [Value.typeOf] at type
    rename_i u n
    subst type
    have filled := Filled.key n
    rwa [← keyText_of_asInteger? (asInteger?_ofInt _ n)] at filled

/-! ### Several values -/

section Several

variable {ω : Type} {parts : List ω} {type : ω → Ty} {json : ω → Json} {value : ω → Value}

/-- Each of several values is filled from its own JSON value. -/
theorem filled_parts (each : ∀ p ∈ parts, Filled Converted [type p] (json p) [value p]) :
    ∀ q ∈ parts.map (fun p => (⟨type p, json p, [value p]⟩ : Part)),
      Filled Converted [q.type] q.json q.values := by
  intro q inside
  obtain ⟨p, member, same⟩ := List.mem_map.mp inside
  rw [← same]
  exact each p member

theorem flatMap_parts :
    (parts.map fun p => (⟨type p, json p, [value p]⟩ : Part)).flatMap Part.values =
      parts.map value := by
  rw [List.flatMap_map, List.map_eq_flatMap]

theorem filled_row (several : 1 < parts.length)
    (each : ∀ p ∈ parts, Filled Converted [type p] (json p) [value p]) :
    Filled Converted (parts.map type) (.array (parts.map json)) (parts.map value) := by
  have filled := Filled.several _ (by simpa using several) (filled_parts each)
  rw [flatMap_parts, List.map_map, List.map_map] at filled
  exact filled

theorem filled_array {elem : Ty} (codec : Codec (.array elem))
    (plain : ∀ key value, elem ≠ .entry key value) (types : ∀ p ∈ parts, type p = elem)
    (each : ∀ p ∈ parts, Filled Converted [type p] (json p) [value p]) :
    Filled Converted [.array elem] (.array (parts.map json)) [.array elem (parts.map value)] := by
  have element := (Ty.single_array _).mp codec.single
  have partTypes : ∀ q ∈ parts.map (fun p => (⟨type p, json p, [value p]⟩ : Part)), q.type = elem := by
    intro q inside
    obtain ⟨p, member, same⟩ := List.mem_map.mp inside
    rw [← same]
    exact types p member
  have filled := Filled.array element codec.splits plain
    (show (Json.array (parts.map json)).isArray || _ from rfl) _ (by rw [List.map_map]; rfl) partTypes
    (filled_parts each)
  rwa [flatMap_parts] at filled

theorem reads_parts {env : Env} (each : ∀ p ∈ parts, Reads env [value p] (json p)) :
    List.Forall₂ (fun v json => Reads env [v] json) (parts.map value) (parts.map json) := by
  rw [List.forall₂_map_left_iff, List.forall₂_map_right_iff, List.forall₂_same]
  exact each

/-- The entries of a dict are filled from members under the texts of their keys. -/
theorem filled_dict {key : Basic} {t : Ty} (codec : Codec (.array (.entry (.basic key) t)))
    {k : ω → Value} (types : ∀ p ∈ parts, (k p).typeOf = .basic key ∧ (value p).typeOf = t)
    (each : ∀ p ∈ parts, Filled Converted [t] (json p) [value p]) :
    Filled Converted [.array (.entry (.basic key) t)]
      (.object (parts.map fun p => ((ofBasic (k p)).keyText, json p)))
      [.array (.entry (.basic key) t) (parts.map fun p => .entry (k p) (value p))] := by
  have element := (Ty.single_array _).mp codec.single
  let part := fun p => (⟨(ofBasic (k p)).keyText, json p, k p, value p⟩ : DictPart)
  have partTypes : ∀ q ∈ parts.map part, q.key.typeOf = .basic key ∧ q.value.typeOf = t := by
    intro q inside
    obtain ⟨p, member, same⟩ := List.mem_map.mp inside
    rw [← same]
    exact types p member
  have keys : ∀ q ∈ parts.map part, Filled Converted [.basic key] (.string q.name) [q.key] := by
    intro q inside
    obtain ⟨p, member, same⟩ := List.mem_map.mp inside
    rw [← same]
    exact codec.named.filled (types p member).1
  have values : ∀ q ∈ parts.map part, Filled Converted [t] q.json [q.value] := by
    intro q inside
    obtain ⟨p, member, same⟩ := List.mem_map.mp inside
    rw [← same]
    exact each p member
  have filled := Filled.dict element
    (show (Json.object (parts.map fun p => ((ofBasic (k p)).keyText, json p))).isArray || _ from rfl)
    (parts.map part) (by rw [List.map_map]; rfl) partTypes keys values
  rw [List.map_map] at filled
  exact filled

theorem reads_entries {env : Env} {key : Basic} {t : Ty} (named : KeyCode key) {k : ω → Value}
    (types : ∀ p ∈ parts, (k p).typeOf = .basic key ∧ (value p).typeOf = t)
    (reads : ∀ p ∈ parts, Reads env [value p] (json p)) :
    Reads env [.array (.entry (.basic key) t) (parts.map fun p => .entry (k p) (value p))]
      (Json.ofAssignments (parts.map fun p => ((ofBasic (k p)).keyText, json p))) := by
  let part := fun p => (⟨k p, value p, ofBasic (k p), json p⟩ : EntryPart)
  have partTypes : ∀ q ∈ parts.map part, q.key.typeOf = .basic key ∧ q.value.typeOf = t := by
    intro q inside
    obtain ⟨p, member, same⟩ := List.mem_map.mp inside
    exact same ▸ types p member
  have keys : ∀ q ∈ parts.map part, Reads env [q.key] q.keyJson := by
    intro q inside
    obtain ⟨p, member, same⟩ := List.mem_map.mp inside
    exact same ▸ Message2Json.reads_scalar env (types p member).1 named.scalar
  have values : ∀ q ∈ parts.map part, Reads env [q.value] q.valueJson := by
    intro q inside
    obtain ⟨p, member, same⟩ := List.mem_map.mp inside
    exact same ▸ reads p member
  have dict := Message2Json.reads_dict partTypes keys values
  rw [List.map_map, List.map_map] at dict
  exact dict

end Several

/-! ### From a value to JSON and back -/

/-- The value is read as JSON, from which it is filled again up to the order of dict
entries. -/
def ThereAndBack (env : Env) (v : Value) : Prop :=
  ∃ json, Reads env [v] json ∧ ∃ w, Value.Reorder v w ∧ Filled Converted [v.typeOf] json [w]

/-- One of several values, with what it is read as and what is filled from that. -/
structure Carried where
  value : Value
  json : Json
  moved : Value

structure Carried.Good (env : Env) (p : Carried) : Prop where
  reads : Reads env [p.value] p.json
  same : Value.Reorder p.value p.moved
  filled : Filled Converted [p.value.typeOf] p.json [p.moved]

theorem ThereAndBack.exists_carried {env : Env} {vs : List Value}
    (each : ∀ v ∈ vs, ThereAndBack env v) :
    ∃ parts : List Carried, vs = parts.map Carried.value ∧ ∀ p ∈ parts, p.Good env := by
  apply Json2Message.exists_parts
  intro v inside
  obtain ⟨json, reads, w, same, filled⟩ := each v inside
  exact ⟨⟨v, json, w⟩, rfl, reads, same, filled⟩

theorem reorder_carried {env : Env} {parts : List Carried} (good : ∀ p ∈ parts, p.Good env) :
    ∀ q ∈ (parts.map Carried.value).zip (parts.map Carried.moved), Value.Reorder q.1 q.2 := by
  intro q inside
  rw [List.zip_map'] at inside
  obtain ⟨p, member, same⟩ := List.mem_map.mp inside
  rw [← same]
  exact (good p member).same

theorem Codable.splits {v : Value} (codable : Codable v) : SignatureUtils.Splits v.typeOf :=
  codable.codec.splits

theorem thereAndBack_struct {env : Env} {fields : List Value} (some : fields ≠ [])
    (codable : Codable (.struct fields)) (splits : ∀ field ∈ fields, SignatureUtils.Splits field.typeOf)
    (each : ∀ field ∈ fields, ThereAndBack env field) : ThereAndBack env (.struct fields) := by
  have single := codable.codec.single
  obtain ⟨parts, rfl, good⟩ := ThereAndBack.exists_carried each
  have moved : Value.Reorder (.struct (parts.map Carried.value)) (.struct (parts.map Carried.moved)) :=
    .struct (by simp) (reorder_carried good)
  have types : (parts.map Carried.moved).map Value.typeOf =
      (parts.map Carried.value).map Value.typeOf := by
    simpa [eq_comm] using moved.typeOf_eq
  rw [Value.typeOf_struct] at single
  by_cases one : parts.length = 1
  · obtain ⟨p, rfl⟩ := List.length_eq_one_iff.mp one
    have here := good p (by simp)
    refine ⟨p.json, here.reads.struct, _, moved, ?_⟩
    rw [Value.typeOf_struct]
    exact .struct single types here.filled
  · have several : 1 < parts.length := by
      have positive : parts.length ≠ 0 := by
        intro none
        rw [List.length_eq_zero_iff] at none
        simp [none] at some
      omega
    refine ⟨.array (parts.map Carried.json), ?_, _, moved, ?_⟩
    · exact (Message2Json.reads_several (by simpa using several) splits
        (reads_parts fun p inside => (good p inside).reads)).struct
    · rw [Value.typeOf_struct]
      refine .struct single types ?_
      rw [List.map_map]
      exact filled_row several fun p inside => (good p inside).filled

theorem thereAndBack_array {env : Env} (off : env.config.binarySupport = false) {elem : Ty}
    {items : List Value} (codec : Codec (.array elem)) (plain : ∀ key value, elem ≠ .entry key value)
    (types : ∀ item ∈ items, item.typeOf = elem) (each : ∀ item ∈ items, ThereAndBack env item) :
    ThereAndBack env (.array elem items) := by
  obtain ⟨parts, rfl, good⟩ := ThereAndBack.exists_carried each
  refine ⟨.array (parts.map Carried.json), ?_, .array elem (parts.map Carried.moved), ?_, ?_⟩
  · exact Message2Json.reads_array (codec.arrayRead plain off) types
      (reads_parts fun p inside => (good p inside).reads)
  · exact .array (by simp) (reorder_carried good)
  · exact filled_array codec plain (fun p inside => types _ (List.mem_map_of_mem inside))
      fun p inside => (good p inside).filled

/-- A dict entry with what its value is read as and what is filled from that. -/
structure CarriedEntry where
  key : Value
  carried : Carried

def CarriedEntry.member (p : CarriedEntry) : Str × Json := ((ofBasic p.key).keyText, p.carried.json)

/-- Reading sorts the entries of a dict by the texts of their keys. -/
theorem exists_sorted {parts : List CarriedEntry}
    (distinct : (parts.map fun p => (ofBasic p.key).keyText).Nodup) :
    ∃ sorted : List CarriedEntry, parts.Perm sorted ∧
      OrderedMap.insertAll (parts.map CarriedEntry.member) [] = sorted.map CarriedEntry.member := by
  have names : (([] ++ parts.map CarriedEntry.member).map Prod.fst).Nodup := by
    rw [List.nil_append, List.map_map]
    exact distinct
  have perm := OrderedMap.insertAll_perm names
  rw [List.nil_append] at perm
  have split := congrFun (congrFun (List.eq_map_comp_perm CarriedEntry.member)
    (OrderedMap.insertAll (parts.map CarriedEntry.member) [])) parts
  obtain ⟨sorted, same, moved⟩ := split ▸ perm
  exact ⟨sorted, moved.symm, same⟩

theorem thereAndBack_dict {env : Env} {key : Basic} {value : Ty}
    (codec : Codec (.array (.entry (.basic key) value))) {entries : List (Value × Value)}
    (some : entries ≠ []) (types : ∀ e ∈ entries, e.1.typeOf = .basic key ∧ e.2.typeOf = value)
    (distinct : (entries.map Prod.fst).Nodup) (each : ∀ e ∈ entries, ThereAndBack env e.2) :
    ThereAndBack env (.array (.entry (.basic key) value) (entries.map fun e => .entry e.1 e.2)) := by
  have named := codec.named
  obtain ⟨parts, rfl, good⟩ : ∃ parts : List CarriedEntry,
      entries = parts.map (fun p => (p.key, p.carried.value)) ∧ ∀ p ∈ parts, p.carried.Good env := by
    apply Json2Message.exists_parts
    rintro ⟨k, v⟩ inside
    obtain ⟨json, reads, w, same, filled⟩ := each (k, v) inside
    exact ⟨⟨k, v, json, w⟩, rfl, reads, same, filled⟩
  have partTypes : ∀ p ∈ parts, p.key.typeOf = .basic key ∧ p.carried.value.typeOf = value :=
    fun p inside => types _ (List.mem_map_of_mem inside)
  have names : (parts.map fun p => (ofBasic p.key).keyText).Nodup := by
    rw [List.map_map] at distinct
    have injective : ∀ k ∈ parts.map CarriedEntry.key, ∀ l ∈ parts.map CarriedEntry.key,
        (ofBasic k).keyText = (ofBasic l).keyText → k = l := by
      intro k inside l inside' same
      obtain ⟨p, member, rfl⟩ := List.mem_map.mp inside
      obtain ⟨q, member', rfl⟩ := List.mem_map.mp inside'
      exact named.text_injective (partTypes p member).1 (partTypes q member').1 same
    have texts := List.Nodup.map_on injective distinct
    rwa [List.map_map] at texts
  obtain ⟨sorted, perm, members⟩ := exists_sorted names
  have good' : ∀ p ∈ sorted, p.carried.Good env := fun p inside => good p (perm.mem_iff.mpr inside)
  have partTypes' : ∀ p ∈ sorted, p.key.typeOf = .basic key ∧ p.carried.value.typeOf = value :=
    fun p inside => partTypes p (perm.mem_iff.mpr inside)
  have json : Json.ofAssignments (parts.map CarriedEntry.member) =
      .object (sorted.map CarriedEntry.member) := by
    rw [← members]
    cases parts with
    | nil => simp at some
    | cons p parts => rfl
  refine ⟨Json.ofAssignments (parts.map CarriedEntry.member), ?_,
    .array (.entry (.basic key) value) (sorted.map fun p => .entry p.key p.carried.moved), ?_, ?_⟩
  · rw [List.map_map]
    exact reads_entries named partTypes fun p inside => (good p inside).reads
  · have moved : ((parts.map fun p => (p.key, p.carried.value)).map fun e => Value.entry e.1 e.2).Perm
        ((sorted.map fun p => (p.key, p.carried.value)).map fun e => Value.entry e.1 e.2) :=
      (perm.map _).map _
    refine .dict moved (.array (by simp) ?_)
    intro q inside
    rw [List.map_map, List.zip_map'] at inside
    obtain ⟨p, member, same⟩ := List.mem_map.mp inside
    rw [← same]
    exact .entry (good' p member).same
  · rw [json]
    refine filled_dict codec ?_ ?_
    · intro p member
      rw [← (good' p member).same.typeOf_eq]
      exact partTypes' p member
    · intro p member
      rw [← (partTypes' p member).2]
      exact (good' p member).filled

theorem Codable.thereAndBack {v : Value} (codable : Codable v) {env : Env}
    (off : env.config.binarySupport = false) : ThereAndBack env v := by
  induction codable with
  | @basic v b type scalar =>
      refine ⟨ofBasic v, Message2Json.reads_scalar env type scalar, v, .refl v, ?_⟩
      rw [type]
      exact filled_basic type scalar
  | @variant content inner ih =>
      obtain ⟨json, reads, w, same, filled⟩ := ih
      have single := inner.codec.single
      refine ⟨_, reads.variant, .variant w, .variant same, ?_⟩
      exact .variant single rfl rfl same.typeOf_eq.symm filled
  | struct some each ih =>
      exact thereAndBack_struct some (.struct some each)
        (fun field inside => (each field inside).splits) ih
  | array codec plain types each ih => exact thereAndBack_array off codec plain types ih
  | dict codec entries some types distinct each ih =>
      exact thereAndBack_dict codec some types distinct ih

/-! ### From JSON to a value and back -/

/-- From the JSON value one is filled that is read as it again. -/
def BackAndThere (env : Env) (t : Ty) (json : Json) : Prop :=
  ∃ v, v.typeOf = t ∧ Filled Converted [t] json [v] ∧
    ∃ json', Reads env [v] json' ∧ json'.canon = json.canon

/-- One of several JSON values, with what is filled from it and what that is read as. -/
structure Returned where
  type : Ty
  json : Json
  value : Value
  read : Json

structure Returned.Good (env : Env) (p : Returned) : Prop where
  typeOf : p.value.typeOf = p.type
  filled : Filled Converted [p.type] p.json [p.value]
  reads : Reads env [p.value] p.read
  same : p.read.canon = p.json.canon

theorem canon_returned {env : Env} {parts : List Returned} (good : ∀ p ∈ parts, p.Good env) :
    (Json.array (parts.map Returned.read)).canon = (Json.array (parts.map Returned.json)).canon := by
  rw [Json.canon_array, Json.canon_array, List.map_map, List.map_map]
  congr 1
  exact List.map_congr_left fun p inside => (good p inside).same

theorem typeOf_returned {env : Env} {parts : List Returned} (good : ∀ p ∈ parts, p.Good env) :
    (parts.map Returned.value).map Value.typeOf = parts.map Returned.type := by
  rw [List.map_map]
  exact List.map_congr_left fun p inside => (good p inside).typeOf

theorem backAndThere_struct {env : Env} {given : List (Ty × Json)} (several : 1 < given.length)
    (codec : Codec (.struct (given.map Prod.fst))) (splits : ∀ g ∈ given, SignatureUtils.Splits g.1)
    (each : ∀ g ∈ given, BackAndThere env g.1 g.2) :
    BackAndThere env (.struct (given.map Prod.fst)) (.array (given.map Prod.snd)) := by
  obtain ⟨parts, rfl, good⟩ : ∃ parts : List Returned,
      given = parts.map (fun p => (p.type, p.json)) ∧ ∀ p ∈ parts, p.Good env := by
    apply Json2Message.exists_parts
    rintro ⟨t, json⟩ inside
    obtain ⟨v, type, filled, read, reads, same⟩ := each (t, json) inside
    exact ⟨⟨t, json, v, read⟩, rfl, type, filled, reads, same⟩
  have single := codec.single
  rw [List.map_map] at single ⊢
  rw [List.map_map]
  have types := typeOf_returned good
  refine ⟨.struct (parts.map Returned.value), ?_, ?_, .array (parts.map Returned.read), ?_, ?_⟩
  · rw [Value.typeOf_struct, types]
    rfl
  · refine .struct single types ?_
    exact filled_row (by simpa using several) fun p inside => (good p inside).filled
  · refine (Message2Json.reads_several (by simpa using several) ?_
      (reads_parts fun p inside => (good p inside).reads)).struct
    intro v inside
    obtain ⟨p, member, same⟩ := List.mem_map.mp inside
    rw [← same, (good p member).typeOf]
    exact splits _ (List.mem_map_of_mem member)
  · exact canon_returned good

theorem backAndThere_array {env : Env} (off : env.config.binarySupport = false) {elem : Ty}
    {items : List Json} (codec : Codec (.array elem)) (plain : ∀ key value, elem ≠ .entry key value)
    (each : ∀ item ∈ items, BackAndThere env elem item) :
    BackAndThere env (.array elem) (.array items) := by
  obtain ⟨parts, rfl, facts⟩ : ∃ parts : List Returned,
      items = parts.map Returned.json ∧ ∀ p ∈ parts, p.type = elem ∧ p.Good env := by
    apply Json2Message.exists_parts
    intro json inside
    obtain ⟨v, type, filled, read, reads, same⟩ := each json inside
    exact ⟨⟨elem, json, v, read⟩, rfl, rfl, type, filled, reads, same⟩
  have good : ∀ p ∈ parts, p.Good env := fun p inside => (facts p inside).2
  refine ⟨.array elem (parts.map Returned.value), rfl, ?_, .array (parts.map Returned.read), ?_, ?_⟩
  · exact filled_array codec plain (fun p inside => (facts p inside).1)
      fun p inside => (good p inside).filled
  · refine Message2Json.reads_array (codec.arrayRead plain off) ?_
      (reads_parts fun p inside => (good p inside).reads)
    intro item inside
    obtain ⟨p, member, same⟩ := List.mem_map.mp inside
    rw [← same, (good p member).typeOf, (facts p member).1]
  · exact canon_returned good

theorem backAndThere_dict {env : Env} {key : Basic} {value : Ty} {members : List (Str × Json)}
    (codec : Codec (.array (.entry (.basic key) value))) (some : members ≠ [])
    (ascending : OrderedMap.Ascending members)
    (keys : ∀ m ∈ members, ∃ k : Value, k.typeOf = .basic key ∧ m.1 = (ofBasic k).keyText)
    (each : ∀ m ∈ members, BackAndThere env value m.2) :
    BackAndThere env (.array (.entry (.basic key) value)) (.object members) := by
  obtain ⟨parts, rfl, facts⟩ : ∃ parts : List (Value × Returned),
      members = parts.map (fun p => ((ofBasic p.1).keyText, p.2.json)) ∧
        ∀ p ∈ parts, p.1.typeOf = .basic key ∧ p.2.type = value ∧ p.2.Good env := by
    apply Json2Message.exists_parts
    rintro ⟨name, json⟩ inside
    obtain ⟨k, kType, text⟩ := keys (name, json) inside
    obtain ⟨v, type, filled, read, reads, same⟩ := each (name, json) inside
    refine ⟨⟨k, value, json, v, read⟩, ?_, kType, rfl, type, filled, reads, same⟩
    exact Prod.ext text.symm rfl
  have types : ∀ p ∈ parts, p.1.typeOf = .basic key ∧ p.2.value.typeOf = value := by
    intro p inside
    obtain ⟨kType, type, good⟩ := facts p inside
    exact ⟨kType, good.typeOf.trans type⟩
  have sorted : Json.ofAssignments (parts.map fun p => ((ofBasic p.1).keyText, p.2.read)) =
      .object (parts.map fun p => ((ofBasic p.1).keyText, p.2.read)) := by
    have names : OrderedMap.Ascending ([] ++ parts.map fun p => ((ofBasic p.1).keyText, p.2.read)) := by
      rw [OrderedMap.Ascending, List.pairwise_map] at ascending
      rw [OrderedMap.Ascending, List.nil_append, List.pairwise_map]
      exact ascending
    have inserted := OrderedMap.insertAll_of_ascending names
    cases parts with
    | nil => simp at some
    | cons p parts =>
        change Json.object (OrderedMap.insertAll _ []) = _
        rw [inserted]
        rfl
  refine ⟨.array (.entry (.basic key) value) (parts.map fun p => .entry p.1 p.2.value), rfl, ?_,
    Json.ofAssignments (parts.map fun p => ((ofBasic p.1).keyText, p.2.read)), ?_, ?_⟩
  · refine filled_dict codec types ?_
    intro p inside
    obtain ⟨_, type, good⟩ := facts p inside
    exact type ▸ good.filled
  · exact reads_entries codec.named types fun p inside => (facts p inside).2.2.reads
  · rw [sorted, Json.canon_object, Json.canon_object, List.map_map, List.map_map]
    congr 1
    apply List.map_congr_left
    intro p inside
    exact Prod.ext rfl (facts p inside).2.2.same

theorem Conforms.backAndThere {t : Ty} {json : Json} (conforms : Conforms t json) {env : Env}
    (off : env.config.binarySupport = false) : BackAndThere env t json := by
  induction conforms with
  | bool b => exact ⟨.bool b, rfl, .bool b, _, Message2Json.reads_scalar env rfl trivial, rfl⟩
  | @int t json n stored inRange =>
      refine ⟨.int t ⟨n, inRange⟩, rfl, ?_, _, Message2Json.reads_scalar env rfl trivial, ?_⟩
      · exact .int (.inl ⟨n, stored, (IntTy.wrap_of_holds inRange).symm⟩)
      · exact canon_of_asInteger? (asInteger?_ofInt t ⟨n, inRange⟩) stored
  | double d => exact ⟨.double d, rfl, .double rfl, _, Message2Json.reads_scalar env rfl trivial, rfl⟩
  | string s =>
      refine ⟨.string s, rfl, ?_, _, Message2Json.reads_scalar env rfl trivial, rfl⟩
      exact @filled_basic (.string s) .string rfl trivial
  | @variant t held conforms ih =>
      obtain ⟨v, type, filled, read, reads, same⟩ := ih
      refine ⟨.variant v, rfl, ?_, _, reads.variant, ?_⟩
      · exact .variant conforms.codec.single rfl rfl type filled
      · simp [same, type]
  | @single t json conforms ih =>
      obtain ⟨v, type, filled, read, reads, same⟩ := ih
      have single : (Ty.struct [t]).Single := (Conforms.single conforms).codec.single
      refine ⟨.struct [v], ?_, ?_, read, reads.struct, same⟩
      · rw [Value.typeOf_struct, List.map_singleton, type]
      · exact .struct single (by rw [List.map_singleton, type]) filled
  | struct parts several each ih =>
      exact backAndThere_struct several (Conforms.struct parts several each).codec
        (fun g inside => (each g inside).codec.splits) ih
  | array codec plain each ih => exact backAndThere_array off codec plain ih
  | dict codec some ascending keys each ih => exact backAndThere_dict codec some ascending keys ih

/-! ### The round trip -/

/-- The message takes one more value of the type. -/
def Takes {N : Type} [LawfulWriter N] (n : N) (t : Ty) : Prop :=
  ((LawfulWriter.draft n).top.slots.take t).isSome

theorem fills_of_filled {N : Type} [LawfulWriter N] {t : Ty} {json : Json} {v : Value}
    (type : v.typeOf = t) (filled : Filled Converted [t] json [v]) {n : N} (takes : Takes n t) :
    ∃ n', Json2Message.fillMessage n t.text json = .ok n' ∧
      (LawfulWriter.draft n).put v = some (LawfulWriter.draft n') := by
  obtain ⟨slots, taken⟩ := Option.isSome_iff_exists.mp takes
  obtain ⟨d, put⟩ : ∃ d, (LawfulWriter.draft n).put v = some d := by
    rw [Draft.put, type, taken]
    exact ⟨_, rfl⟩
  obtain ⟨n', ran, same⟩ := Json2Message.fillMessage_returns filled
    ((Draft.putAll_singleton _ _).trans put)
  rw [Ty.texts_singleton] at ran
  exact ⟨n', ran, by rw [same]; exact put⟩

/-- A value is extracted whole, and what is filled from its JSON is that value up to the
order of dict entries; a conforming JSON value is filled, and what is extracted from
that is that value up to how integers are stored. -/
theorem codec_round_trip {M N : Type} [LawfulReader M] [LawfulWriter N] (env : Env)
    (off : env.config.binarySupport = false) :
    (∀ v : Value, Codable v → ∀ (m : M) (rest : List Value),
      (LawfulReader.cursor m).good = true → (LawfulReader.cursor m).top.rest = v :: rest →
      ∃ json m', Extracts env m v.typeOf.text json m' ∧
        LawfulReader.cursor m' = (LawfulReader.cursor m).withRest rest ∧
        ∃ w, Value.Reorder v w ∧ ∀ n : N, Takes n v.typeOf →
          ∃ n', Json2Message.fillMessage n v.typeOf.text json = .ok n' ∧
            (LawfulWriter.draft n).put w = some (LawfulWriter.draft n')) ∧
    ∀ (t : Ty) (json : Json), Conforms t json →
      ∃ v : Value, v.typeOf = t ∧
        (∀ n : N, Takes n t → ∃ n', Json2Message.fillMessage n t.text json = .ok n' ∧
          (LawfulWriter.draft n).put v = some (LawfulWriter.draft n')) ∧
        ∀ (m : M) (rest : List Value),
          (LawfulReader.cursor m).good = true → (LawfulReader.cursor m).top.rest = v :: rest →
          ∃ json' m', Extracts env m t.text json' m' ∧
            LawfulReader.cursor m' = (LawfulReader.cursor m).withRest rest ∧
            json'.canon = json.canon := by
  constructor
  · intro v codable m rest good ahead
    obtain ⟨json, reads, w, same, filled⟩ := codable.thereAndBack off
    obtain ⟨m', extracts, left⟩ := reads.anywhere good ahead
    refine ⟨json, m', extracts, left, w, same, ?_⟩
    intro n takes
    exact fills_of_filled same.typeOf_eq.symm filled takes
  · intro t json conforms
    obtain ⟨v, type, filled, json', reads, same⟩ := conforms.backAndThere off
    refine ⟨v, type, fun n takes => fills_of_filled type filled takes, ?_⟩
    intro m rest good ahead
    obtain ⟨m', extracts, left⟩ := reads.anywhere good ahead
    rw [type] at extracts
    exact ⟨json', m', extracts, left, same⟩

/-- A byte and a dict with one variant. -/
def sampleFields : List Value :=
  [.int .byte ⟨7, by decide⟩,
    .array (.entry (.basic .string) .variant)
      [.entry (.string ⟨"on".toList, by decide⟩) (.variant (.bool true))]]

def sampleJson : Json :=
  .array [.unsigned ⟨7, by decide⟩,
    .object [("on".toList, .object [("value".toList, .bool true), ("variant".toList, .string "b".toList)])]]

theorem sampleFields_codable : Codable (.struct sampleFields) := by
  have codec : Codec (.array (.entry (.basic .string) .variant)) := .dict (.inl rfl) .variant
  have byte : Codable (.int .byte ⟨7, by decide⟩) := @Codable.basic _ (.int .byte) rfl trivial
  have flag : Codable (.variant (.bool true)) := .variant (@Codable.basic _ .bool rfl trivial)
  have dict := Codable.dict codec [(.string ⟨"on".toList, by decide⟩, .variant (.bool true))] (by simp)
    (by simp) (by simp) (by simpa using flag)
  exact .struct (by simp [sampleFields]) (by simpa [sampleFields] using ⟨byte, dict⟩)

theorem sampleJson_conforms : Conforms (.struct (sampleFields.map Value.typeOf)) sampleJson := by
  have codec : Codec (.array (.entry (.basic .string) .variant)) := .dict (.inl rfl) .variant
  have byte : Conforms (.basic (.int .byte)) (.unsigned ⟨7, by decide⟩) :=
    @Conforms.int .byte _ 7 rfl (by decide)
  have flag : Conforms .variant
      (.object [("value".toList, .bool true), ("variant".toList, .string "b".toList)]) :=
    .variant (.bool true)
  have dict := @Conforms.dict .string .variant [("on".toList, _)] codec (by simp)
    (List.pairwise_singleton _ _)
    (by simpa using ⟨Value.string ⟨"on".toList, by decide⟩, rfl, rfl⟩) (by simpa using flag)
  exact .struct [(.basic (.int .byte), _), (.array (.entry (.basic .string) .variant), _)] (by simp)
    (by simpa using ⟨byte, dict⟩)

theorem sample_round_trip :
    (∃ json m', Extracts Message2Json.bareEnv (Dbus.Cursor.start [.struct sampleFields])
        (Value.struct sampleFields).typeOf.text json m' ∧ m' = Dbus.Cursor.start [] ∧
      ∃ w, Value.Reorder (.struct sampleFields) w ∧
        ∀ n : Draft, Takes n (Value.struct sampleFields).typeOf →
          ∃ n', Json2Message.fillMessage n (Value.struct sampleFields).typeOf.text json = .ok n' ∧
            n.put w = some n') ∧
    ∃ v : Value, v.typeOf = .struct (sampleFields.map Value.typeOf) ∧
      (∀ n : Draft, Takes n (.struct (sampleFields.map Value.typeOf)) →
        ∃ n', Json2Message.fillMessage n (Ty.struct (sampleFields.map Value.typeOf)).text sampleJson =
          .ok n' ∧ n.put v = some n') ∧
      ∀ (m : Dbus.Cursor) (rest : List Value), m.good = true → m.top.rest = v :: rest →
        ∃ json' m', Extracts Message2Json.bareEnv m (Ty.struct (sampleFields.map Value.typeOf)).text
          json' m' ∧ m' = m.withRest rest ∧ json'.canon = sampleJson.canon :=
  ⟨(@codec_round_trip Dbus.Cursor Draft _ _ Message2Json.bareEnv rfl).1 (.struct sampleFields)
      sampleFields_codable (Dbus.Cursor.start [.struct sampleFields]) [] rfl rfl,
    (@codec_round_trip Dbus.Cursor Draft _ _ Message2Json.bareEnv rfl).2
      (.struct (sampleFields.map Value.typeOf)) sampleJson sampleJson_conforms⟩

end Dbus2Http

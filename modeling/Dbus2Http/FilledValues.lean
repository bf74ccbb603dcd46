import Dbus2Http.Json2Message
import Dbus2Http.NumeralText

set_option autoImplicit false

namespace Dbus2Http.Json2Message

open Cxx (Str Run cStr orThrow_eq_ok charAt)
open Dbus (IntTy Ty Value Draft LawfulWriter zeroFree)
open SignatureUtils (cStr_text cStr_texts substrFrom_array substr_struct substr_entry substr_key
  substrFrom_key)

/-! ### What is filled -/

/-- One of several values filled in a row, with its type and what it adds. -/
structure Part where
  type : Ty
  json : Json
  values : List Value

/-- A dict entry with the member it is filled from. -/
structure DictPart where
  name : Str
  json : Json
  key : Value
  value : Value

def DictPart.entry (p : DictPart) : Value := .entry p.key p.value

/-- How an integer is obtained from what is given for it. -/
abbrev IntegerRule := (t : IntTy) → Json → t.Val → Prop

/-- The integer the code appends. -/
def Converted : IntegerRule := fun t json n =>
  (∃ k, json.asInteger? = some k ∧ n = t.wrap k) ∨
    ∃ text k, json = .string text ∧ Cxx.stoll text = .ok k ∧ t.Holds (comparedWithLimits t k) ∧
      n = t.wrap k

/-- `Filled rule ts json vs`: for the types `ts` the value `json` stands for the values
`vs`. A descriptor stands for nothing at all, and it is missed in every container whose
contents are fixed. -/
inductive Filled (rule : IntegerRule) : List Ty → Json → List Value → Prop
  | none (json : Json) : Filled rule [] json []
  | several (parts : List Part) (several : 1 < parts.length)
      (each : ∀ p ∈ parts, Filled rule [p.type] p.json p.values) :
      Filled rule (parts.map Part.type) (.array (parts.map Part.json)) (parts.flatMap Part.values)
  | bool (b : Bool) : Filled rule [.basic .bool] (.bool b) [.bool b]
  | int {t : IntTy} {json : Json} {n : t.Val} (read : rule t json n) :
      Filled rule [.basic (.int t)] json [.int t n]
  | double {json : Json} {d : Float} (read : json.asDouble? = some d) :
      Filled rule [.basic .double] json [.double d]
  | string (s : Str) : Filled rule [.basic .string] (.string s) [.string (zeroFree s)]
  | unixFd (json : Json) : Filled rule [.basic .unixFd] json []
  | variant {t : Ty} {json held : Json} {content : Value} (single : t.Single)
      (named : json.member? "variant".toList = some (.string t.text))
      (member : json.member? "value".toList = some held) (type : content.typeOf = t)
      (filled : Filled rule [t] held [content]) : Filled rule [.variant] json [.variant content]
  | array {elem : Ty} {json : Json} (element : elem.Element)
      (splits : SignatureUtils.Splits (.array elem)) (plain : ∀ key value, elem ≠ .entry key value)
      (container : json.isArray || json.isObject) (parts : List Part)
      (visited : json.elements = parts.map Part.json) (types : ∀ p ∈ parts, p.type = elem)
      (each : ∀ p ∈ parts, Filled rule [p.type] p.json p.values) :
      Filled rule [.array elem] json [.array elem (parts.flatMap Part.values)]
  | dict {key value : Ty} {json : Json} (element : (Ty.entry key value).Element)
      (container : json.isArray || json.isObject) (parts : List DictPart)
      (visited : json.items = parts.map fun p => (p.name, p.json))
      (types : ∀ p ∈ parts, p.key.typeOf = key ∧ p.value.typeOf = value)
      (keys : ∀ p ∈ parts, Filled rule [key] (.string p.name) [p.key])
      (values : ∀ p ∈ parts, Filled rule [value] p.json [p.value]) :
      Filled rule [.array (.entry key value)] json
        [.array (.entry key value) (parts.map DictPart.entry)]
  | struct {fields : List Ty} {json : Json} {vs : List Value} (single : (Ty.struct fields).Single)
      (types : vs.map Value.typeOf = fields) (filled : Filled rule fields json vs) :
      Filled rule [.struct fields] json [.struct vs]

/-- Every type but a descriptor stands for one value of that type. -/
theorem Filled.one {rule : IntegerRule} {t : Ty} {json : Json} {vs : List Value}
    (filled : Filled rule [t] json vs) :
    t = .basic .unixFd ∧ vs = [] ∨ ∃ v, vs = [v] ∧ v.typeOf = t := by
  generalize single : [t] = ts at filled
  cases filled with
  | none => contradiction
  | several parts several =>
      have length := congrArg List.length single
      simp only [List.length_map, List.length_cons, List.length_nil] at length
      omega
  | bool b => exact .inr ⟨_, rfl, by simpa [eq_comm] using single⟩
  | int read => exact .inr ⟨_, rfl, by simpa [eq_comm] using single⟩
  | double read => exact .inr ⟨_, rfl, by simpa [eq_comm] using single⟩
  | string s => exact .inr ⟨_, rfl, by simpa [eq_comm] using single⟩
  | unixFd => exact .inl ⟨(List.cons.inj single).1, rfl⟩
  | variant => exact .inr ⟨_, rfl, by simpa [eq_comm] using single⟩
  | array => exact .inr ⟨_, rfl, by simpa [eq_comm] using single⟩
  | dict => exact .inr ⟨_, rfl, by simpa [eq_comm] using single⟩
  | struct single' types =>
      exact .inr ⟨_, rfl, by rw [Value.typeOf_struct, types]; exact (List.cons.inj single).1.symm⟩

/-- No descriptor is ever appended. -/
theorem Filled.not_descriptor {rule : IntegerRule} {ts : List Ty} {json : Json} {vs : List Value}
    (filled : Filled rule ts json vs) : ∀ v ∈ vs, v.typeOf ≠ .basic .unixFd := by
  induction filled with
  | several parts several each ih =>
      intro v inside
      obtain ⟨p, member, here⟩ := List.mem_flatMap.mp inside
      exact ih p member v here
  | _ => simp

/-- Only types that the splitter takes whole are filled. -/
theorem Filled.splits {rule : IntegerRule} {ts : List Ty} {json : Json} {vs : List Value}
    (filled : Filled rule ts json vs) : ∀ t ∈ ts, SignatureUtils.Splits t := by
  induction filled with
  | none => simp
  | several parts several each ih =>
      intro t inside
      obtain ⟨p, member, same⟩ := List.mem_map.mp inside
      rw [← same]
      exact ih p member p.type (by simp)
  | array element splits => simpa using splits
  | _ => simp [SignatureUtils.Splits]

/-- What a part is filled with has its type. -/
theorem Filled.typeOf_part {rule : IntegerRule} {parts : List Part}
    (each : ∀ p ∈ parts, Filled rule [p.type] p.json p.values) :
    ∀ v ∈ parts.flatMap Part.values, ∃ p ∈ parts, v.typeOf = p.type := by
  intro v inside
  obtain ⟨p, member, here⟩ := List.mem_flatMap.mp inside
  rcases (each p member).one with ⟨_, nothing⟩ | ⟨w, one, type⟩
  · rw [nothing] at here
    contradiction
  · rw [one, List.mem_singleton] at here
    exact ⟨p, member, by rw [here, type]⟩

/-- An element that is no dict entry is filled with values of its type. -/
theorem Filled.array_typed {rule : IntegerRule} {elem : Ty} {parts : List Part}
    (types : ∀ p ∈ parts, p.type = elem)
    (each : ∀ p ∈ parts, Filled rule [p.type] p.json p.values) :
    ∀ v ∈ parts.flatMap Part.values, v.typeOf = elem := by
  intro v inside
  obtain ⟨p, member, type⟩ := typeOf_part each v inside
  rw [type, types p member]

/-- What is appended has the declared types. -/
theorem Filled.typeOf_mem {rule : IntegerRule} {ts : List Ty} {json : Json} {vs : List Value}
    (filled : Filled rule ts json vs) : ∀ v ∈ vs, v.typeOf ∈ ts := by
  cases filled with
  | several parts several each =>
      intro v inside
      obtain ⟨p, member, type⟩ := typeOf_part each v inside
      rw [type]
      exact List.mem_map_of_mem member
  | struct single types => simp [types]
  | _ => simp

/-- Without a descriptor among the types each of them has its value. -/
theorem Filled.types {rule : IntegerRule} {ts : List Ty} {json : Json} {vs : List Value}
    (filled : Filled rule ts json vs) (free : Ty.basic .unixFd ∉ ts) : vs.map Value.typeOf = ts := by
  cases filled with
  | several parts several each =>
      clear several
      induction parts with
      | nil => rfl
      | cons p parts ih =>
          simp only [List.map_cons, List.mem_cons, not_or] at free
          rcases (each p (by simp)).one with ⟨descriptor, _⟩ | ⟨v, values, type⟩
          · exact absurd descriptor.symm free.1
          · rw [List.flatMap_cons, values, List.singleton_append, List.map_cons, List.map_cons, type,
              ih (fun q member => each q (by simp [member])) free.2]
  | unixFd => simp at free
  | struct single types => rw [List.map_singleton, Value.typeOf_struct, types]
  | _ => rfl

/-! ### What is filled for a type says what its parts are -/

theorem one_ne_several {parts : List Part} (several : 1 < parts.length) (t : Ty) :
    [t] ≠ parts.map Part.type := by
  intro one
  have length := congrArg List.length one
  simp only [List.length_map, List.length_cons, List.length_nil] at length
  omega

theorem Filled.of_several {rule : IntegerRule} {ts : List Ty} {json : Json} {vs : List Value}
    (filled : Filled rule ts json vs) (several : 1 < ts.length) :
    ∃ parts : List Part, ts = parts.map Part.type ∧ json = .array (parts.map Part.json) ∧
      vs = parts.flatMap Part.values ∧ ∀ p ∈ parts, Filled rule [p.type] p.json p.values := by
  cases filled with
  | several parts _ each => exact ⟨parts, rfl, rfl, rfl, each⟩
  | _ => simp at several

theorem Filled.of_array {rule : IntegerRule} {elem : Ty} {json : Json} {vs : List Value}
    (filled : Filled rule [.array elem] json vs) (plain : ∀ key value, elem ≠ .entry key value) :
    ∃ parts : List Part, json.elements = parts.map Part.json ∧ (∀ p ∈ parts, p.type = elem) ∧
      vs = [.array elem (parts.flatMap Part.values)] ∧
      ∀ p ∈ parts, Filled rule [p.type] p.json p.values := by
  generalize one : [Ty.array elem] = ts at filled
  cases filled with
  | several parts several => exact absurd one (one_ne_several several _)
  | array element splits plain' container parts visited types each =>
      cases one
      exact ⟨parts, visited, types, rfl, each⟩
  | dict =>
      cases one
      exact absurd rfl (plain _ _)
  | _ => cases one

theorem Filled.of_dict {rule : IntegerRule} {key value : Ty} {json : Json} {vs : List Value}
    (filled : Filled rule [.array (.entry key value)] json vs) :
    ∃ parts : List DictPart, (json.items = parts.map fun p => (p.name, p.json)) ∧
      key.isBasic = true ∧ (∀ p ∈ parts, p.key.typeOf = key ∧ p.value.typeOf = value) ∧
      vs = [.array (.entry key value) (parts.map DictPart.entry)] ∧
      (∀ p ∈ parts, Filled rule [key] (.string p.name) [p.key]) ∧
      ∀ p ∈ parts, Filled rule [value] p.json [p.value] := by
  generalize one : [Ty.array (.entry key value)] = ts at filled
  cases filled with
  | several parts several => exact absurd one (one_ne_several several _)
  | array element splits plain =>
      cases one
      exact absurd rfl (plain _ _)
  | dict element container parts visited types keys values =>
      cases one
      have basic := ((Ty.element_entry _ _).mp element).1
      exact ⟨parts, visited, basic, types, rfl, keys, values⟩
  | _ => cases one

theorem Filled.of_variant {rule : IntegerRule} {t : Ty} {json held : Json} {vs : List Value}
    (filled : Filled rule [.variant] json vs)
    (named : json.member? "variant".toList = some (.string t.text))
    (member : json.member? "value".toList = some held) :
    ∃ content, vs = [.variant content] ∧ content.typeOf = t ∧ Filled rule [t] held [content] := by
  generalize one : [Ty.variant] = ts at filled
  cases filled with
  | several parts several => exact absurd one (one_ne_several several _)
  | variant single named' member' type inner =>
      rw [named] at named'
      rw [member] at member'
      cases member'
      have same := Ty.text_injective (Json.string.inj (Option.some.inj named'))
      rw [same]
      exact ⟨_, rfl, type, inner⟩
  | _ => cases one

theorem Filled.of_struct {rule : IntegerRule} {fields : List Ty} {json : Json} {vs : List Value}
    (filled : Filled rule [.struct fields] json vs) :
    ∃ inner, vs = [.struct inner] ∧ inner.map Value.typeOf = fields ∧ Filled rule fields json inner := by
  generalize one : [Ty.struct fields] = ts at filled
  cases filled with
  | several parts several => exact absurd one (one_ne_several several _)
  | struct single types inner =>
      cases one
      exact ⟨_, rfl, types, inner⟩
  | _ => cases one

/-! ### Integer keys -/

theorem holds_int64 {t : IntTy} (narrow : t ≠ .uint64) {n : Int} (inside : t.Holds n) :
    IntTy.int64.Holds n := by
  obtain ⟨lower, upper⟩ := inside
  have limits : IntTy.int64.min ≤ t.min ∧ t.max ≤ IntTy.int64.max := by
    cases t with
    | uint64 => exact absurd rfl narrow
    | _ => decide
  exact ⟨by omega, by omega⟩

/-- An unsigned integer survives being taken for a signed one. -/
theorem wrap_uint64_int64 (n : IntTy.uint64.Val) :
    IntTy.uint64.wrap (IntTy.int64.wrap n.val).val = n := by
  apply Subtype.ext
  obtain ⟨lower, upper⟩ := n.property
  have unsigned : IntTy.uint64.min = 0 ∧ IntTy.uint64.max = 18446744073709551615 := by decide
  have signed : IntTy.int64.min = -9223372036854775808 := by decide
  have size : (2 : Int) ^ IntTy.uint64.bits = 18446744073709551616 ∧
      (2 : Int) ^ IntTy.int64.bits = 18446744073709551616 := by decide
  change IntTy.uint64.min + ((IntTy.int64.min + (n.val - IntTy.int64.min) % 2 ^ IntTy.int64.bits) -
    IntTy.uint64.min) % 2 ^ IntTy.uint64.bits = n.val
  rw [unsigned.1, signed, size.1, size.2]
  omega

/-- The check against the limits: those of 64 bits without sign are met by every integer. -/
theorem compared_holds (t : IntTy) (n : Int) :
    t.Holds (comparedWithLimits t n) ↔ t = .uint64 ∨ t.Holds n := by
  unfold comparedWithLimits
  by_cases wide : t = .uint64
  · subst wide
    simp only [↓reduceIte, true_or, iff_true]
    exact (IntTy.wrap _ n).property
  · simp only [wide, ↓reduceIte, false_or]

/-- As 64 bits with sign an integer passes the check of its own type. -/
theorem passes_int64 {t : IntTy} (n : t.Val) :
    t = .uint64 ∨ t.Holds (IntTy.int64.wrap n.val).val := by
  by_cases wide : t = .uint64
  · exact .inl wide
  · rw [IntTy.wrap_of_holds (holds_int64 wide n.property)]
    exact .inr n.property

/-- Where 64 bits without sign have become negative as 64 bits with sign, they are themselves
again. -/
theorem wrap_int64 {t : IntTy} (n : t.Val) : t.wrap (IntTy.int64.wrap n.val).val = n := by
  by_cases wide : t = .uint64
  · subst wide
    exact wrap_uint64_int64 n
  · rw [IntTy.wrap_of_holds (holds_int64 wide n.property), IntTy.wrap_val]

/-- The text made of an integer key is read back as that integer. -/
theorem Filled.key {t : IntTy} (n : t.Val) :
    Filled Converted [.basic (.int t)] (.string (Cxx.toDecimal (IntTy.int64.wrap n.val).val))
      [.int t n] := by
  have read : Cxx.stoll (Cxx.toDecimal (IntTy.int64.wrap n.val).val) =
      .ok (IntTy.int64.wrap n.val).val := Cxx.stoll_toDecimal (IntTy.int64.wrap n.val).property
  exact .int (.inr ⟨_, _, rfl, read, (compared_holds t _).mpr (passes_int64 n), (wrap_int64 n).symm⟩)

/-! ### Loops that fill -/

/-- A list all of whose members are the items of something is the items of a list. -/
theorem exists_parts {ι ω : Type} {item : ω → ι} {P : ω → Prop} {xs : List ι}
    (found : ∀ x ∈ xs, ∃ p, item p = x ∧ P p) :
    ∃ parts : List ω, xs = parts.map item ∧ ∀ p ∈ parts, P p := by
  induction xs with
  | nil => exact ⟨[], rfl, by simp⟩
  | cons x xs ih =>
      obtain ⟨p, here, holds⟩ := found x (by simp)
      obtain ⟨parts, there, hold⟩ := ih fun y inside => found y (by simp [inside])
      refine ⟨p :: parts, by rw [List.map_cons, here, there], ?_⟩
      intro q inside
      rcases List.mem_cons.mp inside with same | later
      · rw [same]
        exact holds
      · exact hold q later

/-- A loop that returns has added what each of its rounds added. -/
theorem foldlM_parts {ι ω : Type} {item : ω → ι} {values : ω → List Value} {P : ω → Prop}
    {step : Draft → ι → Run Draft} {xs : List ι} {d d' : Draft}
    (sound : ∀ x ∈ xs, ∀ d d', step d x = .ok d' →
      ∃ p, item p = x ∧ P p ∧ d.putAll (values p) = some d')
    (done : xs.foldlM step d = .ok d') :
    ∃ parts : List ω, xs = parts.map item ∧ (∀ p ∈ parts, P p) ∧
      d.putAll (parts.flatMap values) = some d' := by
  induction xs generalizing d with
  | nil =>
      have same : d = d' := Except.ok.inj done
      exact ⟨[], rfl, by simp, by rw [same]; rfl⟩
  | cons x xs ih =>
      rw [List.foldlM_cons] at done
      obtain ⟨middle, first, rest⟩ := Cxx.bind_eq_ok.mp done
      obtain ⟨p, here, holds, added⟩ := sound x (by simp) d middle first
      obtain ⟨parts, there, hold, more⟩ := ih (fun y inside => sound y (by simp [inside])) rest
      refine ⟨p :: parts, by rw [List.map_cons, here, ← there], ?_, ?_⟩
      · intro q inside
        rcases List.mem_cons.mp inside with same | later
        · rw [same]
          exact holds
        · exact hold q later
      · rw [List.flatMap_cons, Draft.putAll_append_eq_some]
        exact ⟨middle, added, more⟩

/-- A loop returns when the message takes what its rounds add. -/
theorem foldlM_of_parts {ι ω : Type} {item : ω → ι} {values : ω → List Value}
    {step : Draft → ι → Run Draft} {parts : List ω} {d d' : Draft}
    (complete : ∀ p ∈ parts, ∀ d d', d.putAll (values p) = some d' → step d (item p) = .ok d')
    (added : d.putAll (parts.flatMap values) = some d') :
    (parts.map item).foldlM step d = .ok d' := by
  induction parts generalizing d with
  | nil =>
      rw [List.flatMap_nil, Draft.putAll_nil] at added
      rw [Option.some.inj added]
      rfl
  | cons p parts ih =>
      rw [List.flatMap_cons, Draft.putAll_append_eq_some] at added
      obtain ⟨middle, first, rest⟩ := added
      rw [List.map_cons, List.foldlM_cons, complete p (by simp) d middle first, Cxx.bind_ok]
      exact ih (fun q inside => complete q (by simp [inside])) rest

/-! ### What returns has filled -/

theorem append_eq_ok {d d' : Draft} {v : Value} : append d v = .ok d' ↔ d.put v = some d' :=
  orThrow_eq_ok

theorem openContainer_eq_ok {d d' : Draft} {kind : Dbus.ContainerKind} {contents : Str} :
    openContainer kind d contents = .ok d' ↔ d.openContainer kind (cStr contents) = some d' :=
  orThrow_eq_ok

theorem closeContainer_eq_ok {d d' : Draft} {kind : Dbus.ContainerKind} :
    closeContainer kind d = .ok d' ↔ d.closeContainer = some d' :=
  orThrow_eq_ok

/-- A call that returns has added the values its types and its JSON value stand for. -/
def Sound (fill : Filler Draft) (sig : Str) (json : Json) : Prop :=
  ∀ d d', fill d sig json = .ok d' →
    ∃ ts vs, sig = Ty.texts ts ∧ Filled Converted ts json vs ∧ d.putAll vs = some d'

theorem appendIntegerFromJson_eq_ok {d d' : Draft} {t : IntTy} {json : Json} :
    appendIntegerFromJson t d json = .ok d' ↔
      ∃ n, Converted t json n ∧ d.put (.int t n) = some d' := by
  constructor
  · intro done
    unfold appendIntegerFromJson at done
    split at done
    · exact ⟨_, .inl ⟨_, rfl, rfl⟩, append_eq_ok.mp done⟩
    · exact ⟨_, .inl ⟨_, rfl, rfl⟩, append_eq_ok.mp done⟩
    · rename_i text
      obtain ⟨k, read, checked⟩ := Cxx.bind_eq_ok.mp done
      split at checked
      · rename_i inside
        exact ⟨_, .inr ⟨text, k, rfl, read, inside, rfl⟩, append_eq_ok.mp checked⟩
      · exact absurd checked (Cxx.throwExn_ne_ok _ _ _)
    · exact absurd done (Cxx.throwExn_ne_ok _ _ _)
  · rintro ⟨n, ⟨k, stored, rfl⟩ | ⟨text, k, rfl, read, inside, rfl⟩, put⟩
    · cases json with
      | integer m =>
          obtain rfl : m.val = k := Option.some.inj stored
          exact append_eq_ok.mpr put
      | unsigned m =>
          obtain rfl : m.val = k := Option.some.inj stored
          exact append_eq_ok.mpr put
      | _ => contradiction
    · simp only [appendIntegerFromJson, read, Cxx.bind_ok, inside, ↓reduceIte]
      exact append_eq_ok.mpr put

theorem fillVariant_sound {fill : Filler Draft} (inner : ∀ sig json, Sound fill sig json)
    {json : Json} {d d' : Draft} (done : fillVariant fill d json = .ok d') :
    ∃ vs, Filled Converted [.variant] json vs ∧ d.putAll vs = some d' := by
  unfold fillVariant at done
  split at done
  · split at done
    · rename_i variant held named member
      obtain ⟨sig, spelled, done⟩ := Cxx.bind_eq_ok.mp done
      obtain ⟨opened, opens, done⟩ := Cxx.bind_eq_ok.mp done
      obtain ⟨filled, fills, closes⟩ := Cxx.bind_eq_ok.mp done
      obtain ⟨ts, vs, rfl, values, added⟩ := inner _ _ _ _ fills
      have text : variant = .string (Ty.texts ts) := by
        cases variant <;> simp_all [Json.getString]
      have closed := Draft.closed_variant (openContainer_eq_ok.mp opens) added
        (closeContainer_eq_ok.mp closes)
      obtain ⟨content, rfl, type, single, put⟩ := closed
      have one : ts = [content.typeOf] := by
        apply Ty.texts_injective
        rw [← cStr_texts, type, Ty.texts_singleton]
      rw [one] at values
      rw [text, one, Ty.texts_singleton] at named
      refine ⟨[.variant content], .variant single named member rfl values, ?_⟩
      rw [Draft.putAll_singleton, put]
    · exact absurd done (Cxx.throwExn_ne_ok _ _ _)
  · exact absurd done (Cxx.throwExn_ne_ok _ _ _)

theorem fillStruct_sound {fill : Filler Draft} (inner : ∀ sig json, Sound fill sig json)
    {contents : Str} {json : Json} {d d' : Draft}
    (done : fillStruct fill d ('(' :: (contents ++ [')'])) json = .ok d') :
    ∃ t vs, '(' :: (contents ++ [')']) = Ty.text t ∧ Filled Converted [t] json vs ∧
      d.putAll vs = some d' := by
  unfold fillStruct at done
  obtain ⟨elementSig, cut, done⟩ := Cxx.bind_eq_ok.mp done
  have element : elementSig = contents := by
    rw [← (Cxx.substr_eq_ok.mp cut).2]
    simp
  rw [element] at done
  obtain ⟨opened, opens, done⟩ := Cxx.bind_eq_ok.mp done
  obtain ⟨filled, fills, closes⟩ := Cxx.bind_eq_ok.mp done
  obtain ⟨ts, vs, rfl, values, added⟩ := inner _ _ _ _ fills
  have closed := Draft.closed_struct (openContainer_eq_ok.mp opens) added
    (closeContainer_eq_ok.mp closes)
  obtain ⟨type, single, put⟩ := closed
  rw [cStr_texts] at type
  have types := Ty.texts_injective type
  rw [Value.typeOf_struct, ← types] at single
  refine ⟨.struct ts, [.struct vs], (Ty.text_struct ts).symm, .struct single types.symm values, ?_⟩
  rw [Draft.putAll_singleton, put]

theorem fillDictEntry_sound {fill : Filler Draft} (inner : ∀ sig json, Sound fill sig json)
    {key value : Ty} (basic : key.isBasic = true) {item : Str × Json} {d d' : Draft}
    (done : fillDictEntry fill (key.text ++ value.text) d item = .ok d') :
    ∃ p : DictPart, (p.name, p.json) = item ∧
      ((p.key.typeOf = key ∧ p.value.typeOf = value) ∧
        Filled Converted [key] (.string p.name) [p.key] ∧ Filled Converted [value] p.json [p.value]) ∧
      d.putAll [p.entry] = some d' := by
  unfold fillDictEntry at done
  obtain ⟨opened, opens, done⟩ := Cxx.bind_eq_ok.mp done
  obtain ⟨keySig, keyCut, done⟩ := Cxx.bind_eq_ok.mp done
  obtain ⟨keyed, fillsKey, done⟩ := Cxx.bind_eq_ok.mp done
  obtain ⟨valueSig, valueCut, done⟩ := Cxx.bind_eq_ok.mp done
  obtain ⟨filled, fillsValue, closes⟩ := Cxx.bind_eq_ok.mp done
  obtain ⟨keyTypes, keys, keyText, keyValues, addedKey⟩ := inner _ _ _ _ fillsKey
  obtain ⟨valueTypes, values, valueText, valueValues, addedValue⟩ := inner _ _ _ _ fillsValue
  -- the key is one character, so the two signatures are the two types
  have one : key.text.length = 1 := by
    cases key with
    | basic b => rfl
    | _ => contradiction
  have keyOne : keyTypes = [key] := by
    apply Ty.texts_injective
    rw [← keyText, ← (Cxx.substr_eq_ok.mp keyCut).2, Ty.texts_singleton, List.drop_zero, ← one,
      List.take_left]
  have valueOne : valueTypes = [value] := by
    apply Ty.texts_injective
    rw [← valueText, ← (Cxx.substrFrom_eq_ok.mp valueCut).2, Ty.texts_singleton, ← one,
      List.drop_left]
  rw [keyOne] at keyValues
  rw [valueOne] at valueValues
  have added := Draft.putAll_append_eq_some.mpr ⟨keyed, addedKey, addedValue⟩
  have closed := Draft.closed_entry (openContainer_eq_ok.mp opens) added
    (closeContainer_eq_ok.mp closes)
  obtain ⟨k, v, both, type, element, put⟩ := closed
  have text : cStr (key.text ++ value.text) = key.text ++ value.text := by
    simpa using cStr_texts [key, value]
  rw [text] at type
  obtain ⟨keyType, rest⟩ := Ty.text_append_inj type
  have valueType := Ty.text_injective rest
  have counts := congrArg List.length both
  rw [List.length_append] at counts
  rcases keyValues.one with ⟨_, rfl⟩ | ⟨k', rfl, _⟩
  · rcases valueValues.one with ⟨_, rfl⟩ | ⟨v', rfl, _⟩ <;> simp at counts
  · rcases valueValues.one with ⟨_, rfl⟩ | ⟨v', rfl, _⟩
    · simp at counts
    · obtain ⟨rfl, rfl⟩ : k' = k ∧ v' = v := by simpa using both
      refine ⟨⟨item.1, item.2, k', v'⟩, rfl,
        ⟨⟨keyType.symm, valueType.symm⟩, keyValues, valueValues⟩, ?_⟩
      rw [Draft.putAll_singleton]
      exact put

theorem charAt_notDict {elem : Ty} (plain : ∀ key value, elem ≠ .entry key value) :
    charAt (Ty.array elem).text 1 ≠ '{' := by
  cases elem with
  | entry key value => exact absurd rfl (plain key value)
  | basic b => exact b.code_plain.2.2.2.2.1
  | _ => simp [charAt]

theorem fillDict_sound {fill : Filler Draft} (inner : ∀ sig json, Sound fill sig json)
    {key value : Ty} (basic : key.isBasic = true) {arraySig : Str} {json : Json} {d d' : Draft}
    (fills : fillElements fill d (Ty.array (.entry key value)).text arraySig
      (key.text ++ value.text) json = .ok d') :
    ∃ parts : List DictPart, json.items = parts.map (fun p => (p.name, p.json)) ∧
      (∀ p ∈ parts, (p.key.typeOf = key ∧ p.value.typeOf = value) ∧
        Filled Converted [key] (.string p.name) [p.key] ∧
        Filled Converted [value] p.json [p.value]) ∧
      d.putAll (parts.map DictPart.entry) = some d' := by
  have dict : charAt (Ty.array (.entry key value)).text 1 = '{' := rfl
  rw [fillElements, if_pos dict] at fills
  obtain ⟨parts, visited, hold, added⟩ := foldlM_parts
    (fun item _ e e' step => fillDictEntry_sound inner basic step) fills
  have entries : parts.flatMap (fun p => [p.entry]) = parts.map DictPart.entry := by
    rw [← List.map_eq_flatMap]
  rw [entries] at added
  exact ⟨parts, visited, hold, added⟩

theorem fillItems_sound {fill : Filler Draft} (inner : ∀ sig json, Sound fill sig json) {elem : Ty}
    (plain : ∀ key value, elem ≠ .entry key value) {elementSig : Str} {json : Json} {d d' : Draft}
    (fills : fillElements fill d (Ty.array elem).text elem.text elementSig json = .ok d') :
    ∃ parts : List Part, json.elements = parts.map Part.json ∧
      (∀ p ∈ parts, p.type = elem ∧ Filled Converted [p.type] p.json p.values) ∧
      d.putAll (parts.flatMap Part.values) = some d' := by
  have round : ∀ item ∈ json.elements, ∀ e e', fill e elem.text item = .ok e' →
      ∃ p : Part, p.json = item ∧ (p.type = elem ∧ Filled Converted [p.type] p.json p.values) ∧
        e.putAll p.values = some e' := by
    intro item _ e e' step
    obtain ⟨ts, vs, same, values, added⟩ := inner _ _ _ _ step
    have one : ts = [elem] := by
      apply Ty.texts_injective
      rw [← same, Ty.texts_singleton]
    rw [one] at values
    exact ⟨⟨elem, item, vs⟩, rfl, ⟨rfl, values⟩, added⟩
  rw [fillElements, if_neg (charAt_notDict plain)] at fills
  exact foldlM_parts round fills

theorem fillArray_sound {fill : Filler Draft} (inner : ∀ sig json, Sound fill sig json)
    {contents : Str} (single : SignatureUtils.split ('a' :: contents) = .ok ['a' :: contents])
    {json : Json} {d d' : Draft} (done : fillArray fill d ('a' :: contents) json = .ok d') :
    ∃ t vs, 'a' :: contents = Ty.text t ∧ Filled Converted [t] json vs ∧ d.putAll vs = some d' := by
  unfold fillArray at done
  split at done
  · rename_i container
    obtain ⟨arraySig, arrayCut, done⟩ := Cxx.bind_eq_ok.mp done
    have array : arraySig = contents := (Cxx.substrFrom_eq_ok.mp arrayCut).2.symm
    obtain ⟨elementSig, elementCut, done⟩ := Cxx.bind_eq_ok.mp done
    obtain ⟨opened, opens, done⟩ := Cxx.bind_eq_ok.mp done
    obtain ⟨filled, fills, closes⟩ := Cxx.bind_eq_ok.mp done
    rw [array] at opens elementCut fills
    have opens := openContainer_eq_ok.mp opens
    have closes := closeContainer_eq_ok.mp closes
    obtain ⟨_, _, _, shape, _⟩ := Draft.openContainer_eq_some.mp opens
    obtain ⟨elem, text, element, _, _⟩ := Dbus.described_array_iff.mp shape
    obtain ⟨rfl, splits⟩ := SignatureUtils.single_array single text
    have whole : ∀ vs, opened.putAll vs = some filled →
        (∀ v ∈ vs, v.typeOf = elem) ∧ d.putAll [.array elem vs] = some d' := by
      intro vs added
      obtain ⟨elem', text', _, typed, put⟩ := Draft.closed_array opens added closes
      rw [← text] at text'
      rw [Ty.text_injective text', Draft.putAll_singleton]
      exact ⟨typed, put⟩
    by_cases dict : ∃ key value, elem = .entry key value
    · obtain ⟨key, value, rfl⟩ := dict
      have basic := ((Ty.element_entry key value).mp element).1
      rw [substr_entry] at elementCut
      rw [← Except.ok.inj elementCut] at fills
      obtain ⟨parts, visited, hold, added⟩ := fillDict_sound inner basic fills
      exact ⟨.array (.entry key value), _, rfl, .dict element container parts visited
        (fun p member => (hold p member).1) (fun p member => (hold p member).2.1)
        (fun p member => (hold p member).2.2), (whole _ added).2⟩
    · have plain : ∀ key value, elem ≠ .entry key value :=
        fun key value same => dict ⟨key, value, same⟩
      obtain ⟨parts, visited, hold, added⟩ := fillItems_sound inner plain fills
      exact ⟨.array elem, _, rfl, .array element splits plain container parts visited
        (fun p member => (hold p member).1) (fun p member => (hold p member).2), (whole _ added).2⟩
  · exact absurd done (Cxx.throwExn_ne_ok _ _ _)

/-- A piece with a code of its own is that code. -/
theorem single_text {sig : Str} (single : SignatureUtils.split sig = .ok [sig]) {b : Dbus.Basic}
    (front : charAt sig 0 = b.code) (plain : b.code ∈ SignatureUtils.plainCodes) :
    sig = Ty.texts [.basic b] :=
  SignatureUtils.single_plain single front plain

theorem integer_sound {sig : Str} (single : SignatureUtils.split sig = .ok [sig]) {t : IntTy}
    (front : charAt sig 0 = t.code) {json : Json} {d d' : Draft}
    (done : appendIntegerFromJson t d json = .ok d') :
    ∃ ts vs, sig = Ty.texts ts ∧ Filled Converted ts json vs ∧ d.putAll vs = some d' := by
  obtain ⟨n, converted, put⟩ := appendIntegerFromJson_eq_ok.mp done
  have plain : (Dbus.Basic.int t).code ∈ SignatureUtils.plainCodes :=
    SignatureUtils.code_mem_plainCodes ⟨by simp, by simp⟩
  refine ⟨[.basic (.int t)], [.int t n], single_text single front plain, .int converted, ?_⟩
  rw [Draft.putAll_singleton, put]

theorem fillPiece_sound {fill : Filler Draft} (inner : ∀ sig json, Sound fill sig json) {sig : Str}
    (single : SignatureUtils.split sig = .ok [sig]) {json : Json} {d d' : Draft}
    (done : fillPiece fill d sig json = .ok d') :
    ∃ ts vs, sig = Ty.texts ts ∧ Filled Converted ts json vs ∧ d.putAll vs = some d' := by
  unfold fillPiece at done
  split at done
  case h_1 front =>
    split at done
    · rename_i b
      refine ⟨[.basic .bool], _, single_text single front (by decide), .bool b, ?_⟩
      rw [Draft.putAll_singleton, append_eq_ok.mp done]
    · exact absurd done (Cxx.throwExn_ne_ok _ _ _)
  case h_2 front => exact integer_sound single (t := .byte) front done
  case h_3 front => exact integer_sound single (t := .int16) front done
  case h_4 front => exact integer_sound single (t := .uint16) front done
  case h_5 front => exact integer_sound single (t := .int32) front done
  case h_6 front => exact integer_sound single (t := .uint32) front done
  case h_7 front => exact integer_sound single (t := .int64) front done
  case h_8 front => exact integer_sound single (t := .uint64) front done
  case h_9 front =>
    split at done
    · rename_i d read
      refine ⟨[.basic .double], _, single_text single front (by decide), .double read, ?_⟩
      rw [Draft.putAll_singleton, append_eq_ok.mp done]
    · exact absurd done (Cxx.throwExn_ne_ok _ _ _)
  case h_10 front =>
    split at done
    · rename_i s
      refine ⟨[.basic .string], _, single_text single front (by decide), .string s, ?_⟩
      rw [Draft.putAll_singleton, append_eq_ok.mp done]
    · exact absurd done (Cxx.throwExn_ne_ok _ _ _)
  case h_11 front =>
    obtain ⟨vs, filled, added⟩ := fillVariant_sound inner done
    exact ⟨[.variant], vs, SignatureUtils.single_plain single front (by decide), filled, added⟩
  case h_12 front =>
    cases sig with
    | nil => contradiction
    | cons c contents =>
        obtain rfl : c = 'a' := front
        obtain ⟨t, vs, text, filled, added⟩ := fillArray_sound inner single done
        exact ⟨[t], vs, by rw [text, Ty.texts_singleton], filled, added⟩
  case h_13 front =>
    obtain ⟨contents, rfl⟩ := SignatureUtils.single_struct single front
    obtain ⟨t, vs, text, filled, added⟩ := fillStruct_sound inner done
    exact ⟨[t], vs, by rw [text, Ty.texts_singleton], filled, added⟩
  case h_14 =>
    -- of the codes that the splitter accepts only the descriptor's is left
    have left : charAt sig 0 = 'h' := by
      have front := SignatureUtils.single_front single
      have codes : SignatureUtils.plainCodes =
          ['b', 'y', 'n', 'q', 'i', 'u', 'x', 't', 'd', 's', 'h', 'v'] := rfl
      simp only [codes, List.mem_cons, List.not_mem_nil, or_false] at front
      tauto
    have descriptor : sig = ['h'] := SignatureUtils.single_plain single left (by decide)
    refine ⟨[.basic .unixFd], [], descriptor, .unixFd json, ?_⟩
    rw [Draft.putAll_nil, Except.ok.inj done]

theorem fillPieces_sound {fill : Filler Draft} (inner : ∀ sig json, Sound fill sig json)
    {completeSigs : List Str} (several : 1 < completeSigs.length)
    (singles : ∀ piece ∈ completeSigs, SignatureUtils.split piece = .ok [piece]) {json : Json}
    {d d' : Draft} (done : fillPieces fill d completeSigs json = .ok d') :
    ∃ ts vs, completeSigs.flatten = Ty.texts ts ∧ Filled Converted ts json vs ∧
      d.putAll vs = some d' := by
  unfold fillPieces at done
  split at done
  · rename_i items
    split at done
    · rename_i counts
      have round : ∀ call ∈ completeSigs.zip items, ∀ e e', fill e call.1 call.2 = .ok e' →
          ∃ p : Part, (p.type.text, p.json) = call ∧ Filled Converted [p.type] p.json p.values ∧
            e.putAll p.values = some e' := by
        intro call member e e' step
        obtain ⟨ts, vs, text, values, added⟩ := inner _ _ _ _ step
        have alone := singles call.1 (List.of_mem_zip member).1
        rw [text, SignatureUtils.split_texts values.splits] at alone
        obtain ⟨t, rfl, _⟩ := List.map_eq_singleton_iff.mp (Except.ok.inj alone)
        rw [Ty.texts_singleton] at text
        exact ⟨⟨t, call.2, vs⟩, by rw [← text], values, added⟩
      obtain ⟨parts, visited, hold, added⟩ := foldlM_parts round done
      have sigs : completeSigs = parts.map fun p => p.type.text := by
        rw [← List.map_fst_zip (le_of_eq counts.symm), visited, List.map_map]
        rfl
      have jsons : items = parts.map Part.json := by
        rw [← List.map_snd_zip (le_of_eq counts), visited, List.map_map]
        rfl
      rw [jsons]
      refine ⟨parts.map Part.type, _, ?_, .several parts ?_ hold, added⟩
      · rw [sigs, Ty.texts, List.flatMap_map, List.flatMap_def]
      · rw [sigs, List.length_map] at several
        exact several
    · exact absurd done (Cxx.throwExn_ne_ok _ _ _)
  · exact absurd done (Cxx.throwExn_ne_ok _ _ _)

theorem fillCall_sound {fill : Filler Draft} (inner : ∀ sig json, Sound fill sig json) (sig : Str)
    (json : Json) : Sound (fillCall fill) sig json := by
  intro d d' done
  unfold fillCall at done
  obtain ⟨completeSigs, ok, done⟩ := Cxx.bind_eq_ok.mp done
  have whole := (SignatureUtils.split_pieces ok).1
  rcases completeSigs with _ | ⟨first, _ | ⟨second, others⟩⟩
  · refine ⟨[], [], whole.symm, .none json, ?_⟩
    rw [Draft.putAll_nil, Except.ok.inj done]
  · have same : first = sig := SignatureUtils.split_single ok
    rw [same] at ok done
    exact fillPiece_sound inner ok done
  · rw [← whole]
    exact fillPieces_sound inner (by simp) (fun piece => SignatureUtils.split_piece ok) done

theorem fillLoop_sound (fuel : Nat) (sig : Str) (json : Json) : Sound (fillLoop fuel) sig json := by
  induction fuel generalizing sig json with
  | zero =>
      intro d d' done
      contradiction
  | succ fuel ih => exact fillCall_sound ih sig json

/-! ### What can be filled returns -/

theorem fillMessage_several (d : Draft) {ts : List Ty} (splits : ∀ t ∈ ts, SignatureUtils.Splits t)
    (several : 1 < ts.length) (json : Json) :
    fillMessage d (Ty.texts ts) json = fillPieces fillMessage d (ts.map Ty.text) json := by
  rw [fillMessage_eq, fillCall, SignatureUtils.split_texts splits, Cxx.bind_ok]
  rcases ts with _ | ⟨first, _ | ⟨second, others⟩⟩
  · simp at several
  · simp at several
  · rfl

theorem fillMessage_one {M : Type} [Dbus.MessageWriter M] (d : M) {t : Ty}
    (splits : SignatureUtils.Splits t) (json : Json) :
    fillMessage d t.text json = fillPiece fillMessage d t.text json := by
  rw [fillMessage_eq, fillCall, SignatureUtils.split_text splits, Cxx.bind_ok]

theorem fillPiece_int {M : Type} [Dbus.MessageWriter M] (fill : Filler M) (d : M) (t : IntTy)
    (json : Json) :
    fillPiece fill d [t.code] json = appendIntegerFromJson t d json := by
  cases t <;> rfl

theorem fillPiece_double (fill : Filler Draft) (d : Draft) {json : Json} {x : Float}
    (read : json.asDouble? = some x) :
    fillPiece fill d (Ty.basic .double).text json = append d (.double x) := by
  have code : Cxx.charAt (Ty.basic .double).text 0 = 'd' := rfl
  simp only [fillPiece, code, read]

theorem fillVariant_complete {t : Ty} {json held : Json} {content : Value} (single : t.Single)
    (named : json.member? "variant".toList = some (.string t.text))
    (member : json.member? "value".toList = some held) (type : content.typeOf = t)
    (inner : ∀ d d' : Draft, d.put content = some d' → fillMessage d t.text held = .ok d')
    {d d' : Draft} (put : d.put (.variant content) = some d') :
    fillVariant fillMessage d json = .ok d' := by
  have object : json.isObject = true := by
    obtain ⟨members, rfl, _⟩ := Json.member?_eq_some named
    rfl
  rw [← type] at single
  obtain ⟨opened, filled, opens, fills, closes⟩ := Draft.write_variant single put
  rw [type] at opens
  have text : cStr t.text = t.text := Cxx.cStr_eq_self t.text_zero_free
  simp only [fillVariant, object, ↓reduceIte, named, member, Json.getString, Cxx.bind_ok]
  rw [openContainer_eq_ok.mpr (by rw [text]; exact opens), Cxx.bind_ok, inner _ _ fills, Cxx.bind_ok]
  exact closeContainer_eq_ok.mpr closes

theorem fillStruct_complete {fields : List Ty} {json : Json} {vs : List Value}
    (single : (Ty.struct fields).Single) (types : vs.map Value.typeOf = fields)
    (inner : ∀ d d' : Draft, d.putAll vs = some d' →
      fillMessage d (Ty.texts fields) json = .ok d')
    {d d' : Draft} (put : d.put (.struct vs) = some d') :
    fillStruct fillMessage d (Ty.struct fields).text json = .ok d' := by
  have typed : (Value.struct vs).typeOf.Single := by
    rw [Value.typeOf_struct, types]
    exact single
  obtain ⟨opened, filled, opens, fills, closes⟩ := Draft.write_struct typed put
  rw [types] at opens
  rw [fillStruct, substr_struct, Cxx.bind_ok, openContainer_eq_ok.mpr (by rw [cStr_texts]; exact opens),
    Cxx.bind_ok, inner _ _ fills, Cxx.bind_ok]
  exact closeContainer_eq_ok.mpr closes

theorem fillDictEntry_complete {key value : Ty} (element : (Ty.entry key value).Element)
    {p : DictPart} (types : p.key.typeOf = key ∧ p.value.typeOf = value)
    (keyInner : ∀ d d' : Draft, d.put p.key = some d' →
      fillMessage d key.text (.string p.name) = .ok d')
    (valueInner : ∀ d d' : Draft, d.put p.value = some d' →
      fillMessage d value.text p.json = .ok d')
    {d d' : Draft} (put : d.put p.entry = some d') :
    fillDictEntry fillMessage (key.text ++ value.text) d (p.name, p.json) = .ok d' := by
  obtain ⟨b, rfl⟩ : ∃ b, key = .basic b := by
    cases key with
    | basic b => exact ⟨b, rfl⟩
    | _ => simp [Ty.isBasic] at element
  have typed : (Value.entry p.key p.value).typeOf.Element := by
    rw [Value.typeOf_entry, types.1, types.2]
    exact element
  obtain ⟨opened, keyed, filled, opens, fillsKey, fillsValue, closes⟩ := Draft.write_entry typed put
  rw [types.1, types.2] at opens
  have text : cStr ((Ty.basic b).text ++ value.text) = (Ty.basic b).text ++ value.text := by
    simpa using cStr_texts [.basic b, value]
  have keyCut : Cxx.substr ((Ty.basic b).text ++ value.text) 0 1 = .ok (Ty.basic b).text :=
    substr_key b value.text
  have valueCut : Cxx.substrFrom ((Ty.basic b).text ++ value.text) 1 = .ok value.text :=
    substrFrom_key b value.text
  rw [fillDictEntry, openContainer_eq_ok.mpr (by rw [text]; exact opens), Cxx.bind_ok, keyCut,
    Cxx.bind_ok, keyInner _ _ fillsKey, Cxx.bind_ok, valueCut, Cxx.bind_ok,
    valueInner _ _ fillsValue, Cxx.bind_ok]
  exact closeContainer_eq_ok.mpr closes

/-- An array is filled when its loop adds the items. -/
theorem fillArray_complete {elem : Ty} {json : Json} {items : List Value} (element : elem.Element)
    (container : json.isArray || json.isObject) (typed : ∀ item ∈ items, item.typeOf = elem)
    (loop : ∀ elementSig, Cxx.substr elem.text 1 (elem.text.length - 2) = .ok elementSig →
      ∀ d d' : Draft, d.putAll items = some d' →
        fillElements fillMessage d (Ty.array elem).text elem.text elementSig json = .ok d')
    {d d' : Draft} (put : d.put (.array elem items) = some d') :
    fillArray fillMessage d (Ty.array elem).text json = .ok d' := by
  obtain ⟨opened, filled, opens, fills, closes⟩ := Draft.write_array element typed put
  have inside : 1 ≤ elem.text.length := elem.text_length_pos
  have cut := Cxx.substr_of_le (elem.text.length - 2) inside
  simp only [fillArray, container, ↓reduceIte, substrFrom_array, Cxx.bind_ok, cut]
  rw [openContainer_eq_ok.mpr (by rw [cStr_text]; exact opens), Cxx.bind_ok,
    loop _ cut _ _ fills, Cxx.bind_ok]
  exact closeContainer_eq_ok.mpr closes

/-- A call for one type fills the piece of that type. -/
theorem fillMessage_of_piece {t : Ty} {json : Json} {v : Value} (splits : SignatureUtils.Splits t)
    (piece : ∀ d d' : Draft, d.put v = some d' → fillPiece fillMessage d t.text json = .ok d')
    {d d' : Draft} (added : d.putAll [v] = some d') :
    fillMessage d (Ty.texts [t]) json = .ok d' := by
  rw [Draft.putAll_singleton] at added
  rw [Ty.texts_singleton, fillMessage_one d splits]
  exact piece d d' added

theorem fillMessage_text {t : Ty} {json : Json} {v : Value}
    (call : ∀ d d' : Draft, d.putAll [v] = some d' → fillMessage d (Ty.texts [t]) json = .ok d')
    {d d' : Draft} (put : d.put v = some d') : fillMessage d t.text json = .ok d' := by
  rw [← Ty.texts_singleton]
  exact call d d' ((Draft.putAll_singleton _ _).trans put)

theorem fillElements_array {elem : Ty} (plain : ∀ key value, elem ≠ .entry key value) {json : Json}
    {parts : List Part} (visited : json.elements = parts.map Part.json)
    (types : ∀ p ∈ parts, p.type = elem)
    (each : ∀ p ∈ parts, ∀ d d' : Draft, d.putAll p.values = some d' →
      fillMessage d (Ty.texts [p.type]) p.json = .ok d')
    (elementSig : Str) {d d' : Draft} (fills : d.putAll (parts.flatMap Part.values) = some d') :
    fillElements fillMessage d (Ty.array elem).text elem.text elementSig json = .ok d' := by
  rw [fillElements, if_neg (charAt_notDict plain), visited]
  apply foldlM_of_parts _ fills
  intro p member e e' put
  have step := each p member e e' put
  rwa [Ty.texts_singleton, types p member] at step

theorem fillElements_dict {key value : Ty} (element : (Ty.entry key value).Element) {json : Json}
    {parts : List DictPart} (visited : json.items = parts.map fun p => (p.name, p.json))
    (types : ∀ p ∈ parts, p.key.typeOf = key ∧ p.value.typeOf = value)
    (keys : ∀ p ∈ parts, ∀ d d' : Draft, d.put p.key = some d' →
      fillMessage d key.text (.string p.name) = .ok d')
    (values : ∀ p ∈ parts, ∀ d d' : Draft, d.put p.value = some d' →
      fillMessage d value.text p.json = .ok d')
    {elementSig : Str} (cut : elementSig = key.text ++ value.text)
    {d d' : Draft} (fills : d.putAll (parts.map DictPart.entry) = some d') :
    fillElements fillMessage d (Ty.array (.entry key value)).text (Ty.entry key value).text
      elementSig json = .ok d' := by
  have dict : charAt (Ty.array (.entry key value)).text 1 = '{' := rfl
  have entries : parts.map DictPart.entry = parts.flatMap fun p => [p.entry] := by
    rw [← List.map_eq_flatMap]
  rw [fillElements, if_pos dict, visited, cut]
  rw [entries] at fills
  apply foldlM_of_parts _ fills
  intro p member e e' put
  rw [Draft.putAll_singleton] at put
  exact fillDictEntry_complete element (types p member) (keys p member) (values p member) put

/-- Where the message takes the values, the call returns with them added. -/
theorem Filled.complete {ts : List Ty} {json : Json} {vs : List Value}
    (filled : Filled Converted ts json vs) :
    ∀ d d' : Draft, d.putAll vs = some d' → fillMessage d (Ty.texts ts) json = .ok d' := by
  induction filled with
  | none json =>
      intro d d' added
      rw [Draft.putAll_nil] at added
      rw [Option.some.inj added, fillMessage_eq]
      rfl
  | several parts several each ih =>
      intro d d' added
      have splits := (Filled.several parts several each).splits
      rw [fillMessage_several d splits (by simpa using several)]
      have zipped : ((parts.map Part.type).map Ty.text).zip (parts.map Part.json) =
          parts.map fun p => (p.type.text, p.json) := by
        rw [List.map_map, List.zip_map']
        rfl
      simp only [fillPieces, List.length_map, ↓reduceIte, zipped]
      apply foldlM_of_parts _ added
      intro p member e e' put
      have step := ih p member e e' put
      rwa [Ty.texts_singleton] at step
  | bool b =>
      intro d d' added
      apply fillMessage_of_piece (by simp [SignatureUtils.Splits]) _ added
      intro e e' put
      exact append_eq_ok.mpr put
  | int read =>
      intro d d' added
      apply fillMessage_of_piece (by simp [SignatureUtils.Splits]) _ added
      intro e e' put
      exact (fillPiece_int _ _ _ _).trans (appendIntegerFromJson_eq_ok.mpr ⟨_, read, put⟩)
  | double read =>
      intro d d' added
      apply fillMessage_of_piece (by simp [SignatureUtils.Splits]) _ added
      intro e e' put
      exact (fillPiece_double _ _ read).trans (append_eq_ok.mpr put)
  | string s =>
      intro d d' added
      apply fillMessage_of_piece (by simp [SignatureUtils.Splits]) _ added
      intro e e' put
      exact append_eq_ok.mpr put
  | unixFd json =>
      intro d d' added
      rw [Draft.putAll_nil] at added
      rw [Ty.texts_singleton, fillMessage_one d (by simp [SignatureUtils.Splits]),
        Option.some.inj added]
      rfl
  | variant single named member type filled ih =>
      intro d d' added
      apply fillMessage_of_piece (by simp [SignatureUtils.Splits]) _ added
      intro e e' put
      exact fillVariant_complete single named member type (fun _ _ => fillMessage_text ih) put
  | @array elem json element splits plain container parts visited types each ih =>
      intro d d' added
      apply fillMessage_of_piece splits _ added
      intro e e' put
      apply fillArray_complete element container (Filled.array_typed types each) _ put
      intro elementSig _ g g' fills
      exact fillElements_array plain visited types ih elementSig fills
  | @dict key value json element container parts visited types keys values ihKeys ihValues =>
      intro d d' added
      have splits : SignatureUtils.Splits (.array (.entry key value)) := trivial
      have typed : ∀ item ∈ parts.map DictPart.entry, item.typeOf = .entry key value := by
        intro item inside
        obtain ⟨p, member, rfl⟩ := List.mem_map.mp inside
        rw [DictPart.entry, Value.typeOf_entry, (types p member).1, (types p member).2]
      apply fillMessage_of_piece splits _ added
      intro e e' put
      apply fillArray_complete element container typed _ put
      intro elementSig cut g g' fills
      rw [substr_entry] at cut
      exact fillElements_dict element visited types
        (fun p member _ _ => fillMessage_text (ihKeys p member))
        (fun p member _ _ => fillMessage_text (ihValues p member)) (Except.ok.inj cut).symm fills
  | struct single types filled ih =>
      intro d d' added
      apply fillMessage_of_piece (by simp [SignatureUtils.Splits]) _ added
      intro e e' put
      exact fillStruct_complete single types ih put

/-- `FillMessage` returns exactly when the signature and the JSON value stand for values
that the message takes, and those are what it adds. -/
theorem fillMessage_eq_ok {d d' : Draft} {sig : Str} {json : Json} :
    fillMessage d sig json = .ok d' ↔
      ∃ ts vs, sig = Ty.texts ts ∧ Filled Converted ts json vs ∧ d.putAll vs = some d' := by
  constructor
  · exact fillLoop_sound _ sig json d d'
  · rintro ⟨ts, vs, rfl, filled, added⟩
    exact filled.complete d d' added

/-! ### The arguments of a method -/

/-- An argument with the member given for it, the types it declares and the values they
stand for. -/
structure ArgumentPart where
  arg : Argument
  json : Json
  types : List Ty
  values : List Value

/-- The member is there, the type is a sequence of types, and they are filled from it. -/
structure ArgumentPart.Given (request : Json) (p : ArgumentPart) : Prop where
  member : request.member? p.arg.name = some p.json
  type : p.arg.type = Ty.texts p.types
  filled : Filled Converted p.types p.json p.values

theorem fillArguments_eq_ok {d d' : Draft} {args : List Argument} {request : Json} :
    fillArguments d args request = .ok d' ↔
      ∃ parts : List ArgumentPart, args = parts.map ArgumentPart.arg ∧
        (∀ p ∈ parts, p.Given request) ∧ d.putAll (parts.flatMap ArgumentPart.values) = some d' := by
  constructor
  · intro done
    apply foldlM_parts _ done
    intro arg _ e e' step
    split at step
    · rename_i json member
      obtain ⟨ts, vs, type, filled, added⟩ := fillMessage_eq_ok.mp step
      exact ⟨⟨arg, json, ts, vs⟩, rfl, ⟨member, type, filled⟩, added⟩
    · exact absurd step (Cxx.throwExn_ne_ok _ _ _)
  · rintro ⟨parts, rfl, given, added⟩
    apply foldlM_of_parts _ added
    intro p member e e' put
    have facts := given p member
    simp only [facts.member]
    exact fillMessage_eq_ok.mpr ⟨_, _, facts.type, facts.filled, put⟩

theorem fillArguments_draft {M : Type} [LawfulWriter M] (message : M) (args : List Argument)
    (request : Json) :
    Cxx.Alike (fun (m : M) (d : Draft) => LawfulWriter.draft m = d)
      (fillArguments message args request) (fillArguments (LawfulWriter.draft message) args request) := by
  unfold fillArguments
  refine Cxx.Alike.foldlM (R := fun (m : M) (d : Draft) => LawfulWriter.draft m = d) rfl ?_
  intro arg _ m d same
  split
  · rw [← same]
    exact fillMessage_draft m _ _
  · exact .error _

section Lawful

variable {M : Type} [LawfulWriter M]

/-- What a call has added to a message, when it returns. -/
theorem fillMessage_added {message message' : M} {sig : Str} {json : Json}
    (done : fillMessage message sig json = .ok message') :
    ∃ ts vs, sig = Ty.texts ts ∧ Filled Converted ts json vs ∧
      (LawfulWriter.draft message).putAll vs = some (LawfulWriter.draft message') := by
  have alike := fillMessage_draft message sig json
  rw [done] at alike
  obtain ⟨d, ok, same⟩ := alike.ok_left
  rw [same]
  exact fillMessage_eq_ok.mp ok

/-- A call whose values the message takes returns. -/
theorem fillMessage_returns {message : M} {ts : List Ty} {json : Json} {vs : List Value} {d : Draft}
    (filled : Filled Converted ts json vs) (added : (LawfulWriter.draft message).putAll vs = some d) :
    ∃ message', fillMessage message (Ty.texts ts) json = .ok message' ∧
      LawfulWriter.draft message' = d := by
  have alike := fillMessage_draft message (Ty.texts ts) json
  rw [filled.complete _ _ added] at alike
  exact alike.ok_right

end Lawful

end Dbus2Http.Json2Message

import Dbus2Http.FillWalk

set_option autoImplicit false

namespace Dbus2Http.Json2Message

open Cxx (Str)
open Dbus (Basic Ty Value Draft LawfulWriter)

/-! ### Values that miss nothing -/

/-- Every array and dict inside a value has as many elements as the JSON container it
stands for. -/
inductive Complete : Value → Json → Prop
  | basic {v : Value} {json : Json} (basic : v.typeOf.isBasic = true) : Complete v json
  | variant {content : Value} {json held : Json} (member : json.member? "value".toList = some held)
      (inner : Complete content held) : Complete (.variant content) json
  | array {elem : Ty} {items : List Value} {json : Json}
      (count : items.length = json.elements.length)
      (inner : ∀ p ∈ items.zip json.elements, Complete p.1 p.2) : Complete (.array elem items) json
  | entry {key value : Value} {json : Json} (inner : Complete value json) :
      Complete (.entry key value) json
  | field {v : Value} {json : Json} (inner : Complete v json) : Complete (.struct [v]) json
  | struct {vs : List Value} {items : List Json} (several : 1 < vs.length)
      (count : vs.length = items.length) (inner : ∀ p ∈ vs.zip items, Complete p.1 p.2) :
      Complete (.struct vs) (.array items)

theorem complete_field {v : Value} {json : Json} :
    Complete (.struct [v]) json ↔ Complete v json := by
  constructor
  · intro complete
    cases complete with
    | basic basic => simp [Ty.isBasic] at basic
    | field inner => exact inner
    | struct several => simp at several
  · exact .field

theorem complete_struct {vs : List Value} {items : List Json} (several : 1 < vs.length) :
    Complete (.struct vs) (.array items) ↔
      vs.length = items.length ∧ ∀ p ∈ vs.zip items, Complete p.1 p.2 := by
  constructor
  · intro complete
    cases complete with
    | basic basic => simp [Ty.isBasic] at basic
    | field => simp at several
    | struct _ count inner => exact ⟨count, inner⟩
  · intro facts
    exact .struct several facts.1 facts.2

theorem complete_array {elem : Ty} {items : List Value} {json : Json} :
    Complete (.array elem items) json ↔
      items.length = json.elements.length ∧ ∀ p ∈ items.zip json.elements, Complete p.1 p.2 := by
  constructor
  · intro complete
    cases complete with
    | basic basic => simp [Ty.isBasic] at basic
    | array count inner => exact ⟨count, inner⟩
  · intro facts
    exact .array facts.1 facts.2

theorem complete_entry {key value : Value} {json : Json} :
    Complete (.entry key value) json ↔ Complete value json := by
  constructor
  · intro complete
    cases complete with
    | basic basic => simp [Ty.isBasic] at basic
    | entry inner => exact inner
  · exact .entry

theorem complete_variant {content : Value} {json held : Json}
    (member : json.member? "value".toList = some held) :
    Complete (.variant content) json ↔ Complete content held := by
  constructor
  · intro complete
    cases complete with
    | basic basic => simp [Ty.isBasic] at basic
    | variant member' inner =>
        rw [member] at member'
        cases member'
        exact inner
  · exact .variant member

/-! ### Parts with one value each -/

/-- Each part adds one value, of its type, that misses nothing. -/
def OneEach (parts : List Part) : Prop :=
  ∀ p ∈ parts, ∃ v, p.values = [v] ∧ v.typeOf = p.type ∧ Complete v p.json

theorem flatMap_of_oneEach {parts : List Part} (one : OneEach parts) :
    (parts.flatMap Part.values).map Value.typeOf = parts.map Part.type ∧
      (parts.flatMap Part.values).length = (parts.map Part.json).length ∧
      ∀ p ∈ (parts.flatMap Part.values).zip (parts.map Part.json), Complete p.1 p.2 := by
  induction parts with
  | nil => simp
  | cons p parts ih =>
      obtain ⟨v, values, type, complete⟩ := one p (by simp)
      have rest := ih fun q member => one q (by simp [member])
      refine ⟨?_, ?_, ?_⟩
      · rw [List.flatMap_cons, values, List.singleton_append, List.map_cons, List.map_cons, type,
          rest.1]
      · simp only [List.flatMap_cons, values, List.singleton_append, List.length_cons, List.map_cons,
          rest.2.1]
      · intro q member
        rw [List.flatMap_cons, values, List.singleton_append, List.map_cons, List.zip_cons_cons] at member
        rcases List.mem_cons.mp member with same | later
        · rw [same]
          exact complete
        · exact rest.2.2 q later

/-- Parts that add at most one value add one each when the number is right. -/
theorem singles_of_length {parts : List Part} (atMost : ∀ p ∈ parts, p.values.length ≤ 1)
    (count : parts.length ≤ (parts.flatMap Part.values).length) :
    ∀ p ∈ parts, p.values.length = 1 := by
  induction parts with
  | nil => simp
  | cons p parts ih =>
      have bound : (parts.flatMap Part.values).length ≤ parts.length := by
        clear ih count
        induction parts with
        | nil => simp
        | cons q parts ih' =>
            have one := atMost q (by simp)
            have rest := ih' fun r member => atMost r (by
              rcases List.mem_cons.mp member with here | there
              · simp [here]
              · simp [there])
            simp only [List.flatMap_cons, List.length_append, List.length_cons]
            omega
      have first := atMost p (by simp)
      simp only [List.flatMap_cons, List.length_append, List.length_cons] at count
      have rest := ih (fun q member => atMost q (by simp [member])) (by omega)
      intro q member
      rcases List.mem_cons.mp member with same | later
      · rw [same]
        omega
      · exact rest q later

theorem oneEach_of_flatMap {parts : List Part}
    (each : ∀ p ∈ parts, Filled Converted [p.type] p.json p.values)
    (count : (parts.flatMap Part.values).length = (parts.map Part.json).length)
    (inner : ∀ p ∈ (parts.flatMap Part.values).zip (parts.map Part.json), Complete p.1 p.2) :
    OneEach parts := by
  have atMost : ∀ p ∈ parts, p.values.length ≤ 1 := by
    intro p member
    rcases (each p member).one with ⟨_, nothing⟩ | ⟨v, values, _⟩
    · simp [nothing]
    · simp [values]
  rw [List.length_map] at count
  have singles := singles_of_length atMost (le_of_eq count.symm)
  clear count atMost
  induction parts with
  | nil => simp [OneEach]
  | cons p parts ih =>
      have here := singles p (by simp)
      rcases (each p (by simp)).one with ⟨_, nothing⟩ | ⟨v, values, type⟩
      · simp [nothing] at here
      · rw [List.flatMap_cons, values, List.singleton_append, List.map_cons, List.zip_cons_cons] at inner
        have rest := ih (fun q member => each q (by simp [member]))
          (fun q member => inner q (by simp [member])) (fun q member => singles q (by simp [member]))
        intro q member
        rcases List.mem_cons.mp member with same | later
        · rw [same]
          exact ⟨v, values, type, inner (v, p.json) (by simp)⟩
        · exact rest q later

/-! ### Descriptors -/

/-- Somewhere inside a descriptor is given a JSON value. -/
def MeetsDescriptor (ts : List Ty) (json : Json) : Prop :=
  ∃ j, Reaches (ts, json) ([.basic .unixFd], j)

theorem MeetsDescriptor.of_visits {ts ts' : List Ty} {json json' : Json}
    (visit : Visits (ts, json) (ts', json')) (inner : MeetsDescriptor ts' json') :
    MeetsDescriptor ts json := by
  obtain ⟨j, walk⟩ := inner
  exact ⟨j, .head visit walk⟩

/-- Without a descriptor nothing is missed. -/
theorem Filled.complete_of_no_descriptor {ts : List Ty} {json : Json} {vs : List Value}
    (filled : Filled Converted ts json vs) (free : ¬ MeetsDescriptor ts json) :
    vs.map Value.typeOf = ts ∧ (ts ≠ [] → Complete (.struct vs) json) := by
  have alone : ∀ {t : Ty} {j : Json} {values : List Value}, Filled Converted [t] j values →
      (values.map Value.typeOf = [t] ∧ ([t] ≠ [] → Complete (.struct values) j)) →
      ∃ v, values = [v] ∧ v.typeOf = t ∧ Complete v j := by
    intro t j values one facts
    rcases one.one with ⟨_, nothing⟩ | ⟨v, same, type⟩
    · simp [nothing] at facts
    · rw [same] at facts
      exact ⟨v, same, type, complete_field.mp (facts.2 (by simp))⟩
  induction filled with
  | none json => simp
  | several parts several each ih =>
      have one : OneEach parts := by
        intro p member
        apply alone (each p member)
        apply ih p member
        intro meets
        apply free
        refine .of_visits (.part (by simpa using several) ?_) meets
        rw [List.zip_map']
        exact List.mem_map_of_mem member
      have facts := flatMap_of_oneEach one
      have long : 1 < (parts.flatMap Part.values).length := by
        rw [facts.2.1, List.length_map]
        exact several
      exact ⟨facts.1, fun _ => (complete_struct long).mpr facts.2⟩
  | bool b => exact ⟨rfl, fun _ => complete_field.mpr (.basic rfl)⟩
  | int read => exact ⟨rfl, fun _ => complete_field.mpr (.basic rfl)⟩
  | double read => exact ⟨rfl, fun _ => complete_field.mpr (.basic rfl)⟩
  | string s => exact ⟨rfl, fun _ => complete_field.mpr (.basic rfl)⟩
  | unixFd json => exact absurd ⟨json, .refl⟩ free
  | variant single named member type filled ih =>
      have inner := ih fun meets => free (.of_visits (.content named member) meets)
      refine ⟨rfl, fun _ => complete_field.mpr ((complete_variant member).mpr ?_)⟩
      exact complete_field.mp (inner.2 (by simp))
  | array element splits plain container parts visited types each ih =>
      have one : OneEach parts := by
        intro p member
        apply alone (each p member)
        apply ih p member
        intro meets
        rw [types p member] at meets
        apply free
        refine .of_visits (.element plain ?_) meets
        rw [visited]
        exact List.mem_map_of_mem member
      have facts := flatMap_of_oneEach one
      refine ⟨rfl, fun _ => complete_field.mpr (complete_array.mpr ?_)⟩
      rw [visited]
      exact facts.2
  | @dict key value json element container parts visited types keys values ihKeys ihValues =>
      have elements : json.elements = parts.map DictPart.json := by
        rw [← Json.items_map_snd, visited, List.map_map]
        rfl
      refine ⟨rfl, fun _ => complete_field.mpr (complete_array.mpr ?_)⟩
      rw [elements, List.zip_map']
      refine ⟨by simp, ?_⟩
      intro q inside
      obtain ⟨p, member, same⟩ := List.mem_map.mp inside
      rw [← same]
      apply complete_entry.mpr
      have listed : (p.name, p.json) ∈ json.items := by
        rw [visited]
        exact List.mem_map_of_mem member
      have inner := ihValues p member fun meets => free (.of_visits (.value listed) meets)
      exact complete_field.mp (inner.2 (by simp))
  | struct single types filled ih =>
      have inner := ih fun meets => free (.of_visits .fields meets)
      refine ⟨by rw [List.map_singleton, Value.typeOf_struct, types], fun _ => complete_field.mpr ?_⟩
      exact inner.2 ((Ty.single_struct _).mp single).1

/-- Values for which nothing is missed. -/
structure Whole (ts : List Ty) (json : Json) (vs : List Value) : Prop where
  filled : Filled Converted ts json vs
  types : vs.map Value.typeOf = ts
  complete : Complete (.struct vs) json

theorem Whole.of_part {p : Part} (filled : Filled Converted [p.type] p.json p.values)
    (one : ∃ v, p.values = [v] ∧ v.typeOf = p.type ∧ Complete v p.json) :
    Whole [p.type] p.json p.values := by
  obtain ⟨v, values, type, complete⟩ := one
  refine ⟨filled, by rw [values, ← type]; rfl, ?_⟩
  rw [values]
  exact complete_field.mpr complete

/-- Then nothing is missed in a call inside. -/
theorem Whole.visits {ts ts' : List Ty} {json json' : Json} {vs : List Value}
    (whole : Whole ts json vs) (visit : Visits (ts, json) (ts', json')) :
    ∃ vs', Whole ts' json' vs' := by
  obtain ⟨filled, types, complete⟩ := whole
  cases visit with
  | part several inside =>
      obtain ⟨parts, rfl, same, rfl, each⟩ := filled.of_several several
      rw [Json.array.inj same] at inside complete
      have length : (parts.flatMap Part.values).length = parts.length := by
        have counts := congrArg List.length types
        simpa only [List.length_map] using counts
      rw [List.length_map] at several
      have facts := (complete_struct (by rw [length]; exact several)).mp complete
      rw [List.zip_map'] at inside
      obtain ⟨p, member, here⟩ := List.mem_map.mp inside
      cases here
      exact ⟨_, .of_part (each p member) (oneEach_of_flatMap each facts.1 facts.2 p member)⟩
  | element plain inside =>
      obtain ⟨parts, visited, elems, rfl, each⟩ := filled.of_array plain
      have facts := complete_array.mp (complete_field.mp complete)
      rw [visited] at inside facts
      obtain ⟨p, member, here⟩ := List.mem_map.mp inside
      rw [← elems p member, ← here]
      exact ⟨_, .of_part (each p member) (oneEach_of_flatMap each facts.1 facts.2 p member)⟩
  | key inside =>
      obtain ⟨parts, visited, basic, entries, _, keys, _⟩ := filled.of_dict
      rw [visited] at inside
      obtain ⟨p, member, here⟩ := List.mem_map.mp inside
      have type := (entries p member).1
      rw [← here]
      exact ⟨[p.key], keys p member, by rw [← type]; rfl,
        complete_field.mpr (.basic (by rw [type, basic]))⟩
  | value inside =>
      obtain ⟨parts, visited, _, entries, rfl, _, values⟩ := filled.of_dict
      have facts := complete_array.mp (complete_field.mp complete)
      have elements : json.elements = parts.map DictPart.json := by
        rw [← Json.items_map_snd, visited, List.map_map]
        rfl
      rw [visited] at inside
      obtain ⟨p, member, here⟩ := List.mem_map.mp inside
      have pair : (p.entry, p.json) ∈ (parts.map DictPart.entry).zip json.elements := by
        rw [elements, List.zip_map']
        exact List.mem_map_of_mem member
      rw [← here]
      exact ⟨[p.value], values p member, by rw [← (entries p member).2]; rfl,
        complete_field.mpr (complete_entry.mp (facts.2 _ pair))⟩
  | content named member =>
      obtain ⟨content, rfl, type, inner⟩ := filled.of_variant named member
      have held := (complete_variant member).mp (complete_field.mp complete)
      exact ⟨[content], inner, by rw [← type]; rfl, complete_field.mpr held⟩
  | fields =>
      obtain ⟨inner, rfl, same, filled⟩ := filled.of_struct
      exact ⟨inner, filled, same, complete_field.mp complete⟩

theorem Whole.reaches {ts ts' : List Ty} {json json' : Json} {vs : List Value}
    (whole : Whole ts json vs) (walk : Reaches (ts, json) (ts', json')) :
    ∃ vs', Whole ts' json' vs' := by
  generalize start : (ts, json) = first at walk
  generalize final : (ts', json') = last at walk
  induction walk using Relation.ReflTransGen.head_induction_on generalizing ts json vs with
  | refl =>
      cases start.trans final.symm
      exact ⟨vs, whole⟩
  | head visit _ ih =>
      rw [← start] at visit
      obtain ⟨values, inner⟩ := whole.visits visit
      exact ih inner rfl

/-- Where nothing is missed there is no descriptor. -/
theorem Whole.no_descriptor {ts : List Ty} {json : Json} {vs : List Value}
    (whole : Whole ts json vs) : ¬ MeetsDescriptor ts json := by
  rintro ⟨j, walk⟩
  obtain ⟨values, inner⟩ := whole.reaches walk
  rcases inner.filled.one with ⟨_, nothing⟩ | ⟨v, values, type⟩
  · have types := inner.types
    rw [nothing] at types
    contradiction
  · exact inner.filled.not_descriptor v (by simp [values]) type

/-! ### The body of a method call -/

/-- The body is one complete value of the declared type for each argument, in order, and
none of them misses anything. -/
structure BodyFor (args : List Argument) (request : Json) (body : List Value) : Prop where
  count : body.length = args.length
  each : ∀ p ∈ args.zip body, p.2.typeOf.Single ∧ p.2.typeOf.text = p.1.type ∧
    ∀ json, request.member? p.1.name = some json → Complete p.2 json

/-- The argument is of a single complete type, and no descriptor meets a JSON value. -/
def Sendable (request : Json) (arg : Argument) : Prop :=
  ∃ t : Ty, t.Single ∧ arg.type = t.text ∧
    ∀ json, request.member? arg.name = some json → ¬ MeetsDescriptor [t] json

/-- The signature of such a body is that of the arguments. -/
theorem BodyFor.signature {args : List Argument} {request : Json} {body : List Value}
    (whole : BodyFor args request body) :
    Ty.texts (body.map Value.typeOf) = args.flatMap Argument.type := by
  obtain ⟨count, each⟩ := whole
  induction args generalizing body with
  | nil =>
      rw [List.eq_nil_of_length_eq_zero count]
      rfl
  | cons arg args ih =>
      cases body with
      | nil => simp at count
      | cons v body =>
          have first := (each (arg, v) (by simp)).2.1
          have counts : body.length = args.length := by simpa using count
          have rest := ih counts fun p member => each p (by simp [member])
          rw [List.map_cons, Ty.texts_cons, List.flatMap_cons, rest, first]

/-- An argument whose part is one complete value. -/
def ArgumentPart.OneValue (request : Json) (p : ArgumentPart) : Prop :=
  ∃ v, p.values = [v] ∧ v.typeOf.Single ∧ v.typeOf.text = p.arg.type ∧
    ∀ json, request.member? p.arg.name = some json → Complete v json

theorem bodyFor_of_oneValue {request : Json} {parts : List ArgumentPart}
    (one : ∀ p ∈ parts, p.OneValue request) :
    BodyFor (parts.map ArgumentPart.arg) request (parts.flatMap ArgumentPart.values) := by
  induction parts with
  | nil => exact ⟨rfl, by simp⟩
  | cons p parts ih =>
      obtain ⟨v, values, facts⟩ := one p (by simp)
      have rest := ih fun q member => one q (by simp [member])
      rw [List.map_cons, List.flatMap_cons, values, List.singleton_append]
      refine ⟨by rw [List.length_cons, List.length_cons, rest.count], ?_⟩
      intro q member
      rw [List.zip_cons_cons] at member
      rcases List.mem_cons.mp member with same | later
      · rw [same]
        exact facts
      · exact rest.each q later

/-- A body that is complete is made of parts that are one value each. -/
theorem oneValue_of_bodyFor {request : Json} {parts : List ArgumentPart}
    (given : ∀ p ∈ parts, p.Given request)
    (whole : BodyFor (parts.map ArgumentPart.arg) request (parts.flatMap ArgumentPart.values)) :
    ∀ p ∈ parts, p.OneValue request := by
  induction parts with
  | nil => simp
  | cons p parts ih =>
      have facts := given p (by simp)
      obtain ⟨count, each⟩ := whole
      have noDescriptor : ∀ v ∈ (p :: parts).flatMap ArgumentPart.values,
          v.typeOf ≠ .basic .unixFd := by
        intro v inside
        obtain ⟨q, member, here⟩ := List.mem_flatMap.mp inside
        exact (given q member).filled.not_descriptor v here
      cases body : (p :: parts).flatMap ArgumentPart.values with
      | nil =>
          rw [body] at count
          simp at count
      | cons v rest =>
          rw [body] at count each noDescriptor
          have first := each (p.arg, v) (by simp)
          -- the declared type is that of the value, so the part is one value or a descriptor
          have types : p.types = [v.typeOf] := by
            apply Ty.texts_injective
            rw [← facts.type, Ty.texts_singleton, first.2.1]
          have filled := facts.filled
          rw [types] at filled
          rcases filled.one with ⟨descriptor, _⟩ | ⟨w, values, _⟩
          · exact absurd descriptor (noDescriptor v (by simp))
          · rw [List.flatMap_cons, values, List.singleton_append] at body
            obtain ⟨same, others⟩ := List.cons.inj body
            have remaining : BodyFor (parts.map ArgumentPart.arg) request
                (parts.flatMap ArgumentPart.values) := by
              rw [others]
              refine ⟨by simpa using count, ?_⟩
              intro q member
              exact each q (by simp [member])
            intro q member
            rcases List.mem_cons.mp member with here | there
            · rw [here]
              exact ⟨v, by rw [values, same], first⟩
            · exact ih (fun r member => given r (by simp [member])) remaining q there

theorem oneValue_iff_sendable {request : Json} {p : ArgumentPart} (given : p.Given request)
    (single : ∀ v ∈ p.values, v.typeOf.Single) :
    p.OneValue request ↔ Sendable request p.arg := by
  constructor
  · rintro ⟨v, values, complete, type, inner⟩
    refine ⟨v.typeOf, complete, type.symm, ?_⟩
    intro json member
    have types : p.types = [v.typeOf] := by
      apply Ty.texts_injective
      rw [← given.type, Ty.texts_singleton, type]
    have filled := given.filled
    rw [given.member] at member
    cases member
    rw [types, values] at filled
    exact Whole.no_descriptor ⟨filled, rfl, complete_field.mpr (inner p.json given.member)⟩
  · rintro ⟨t, complete, type, free⟩
    have types : p.types = [t] := by
      apply Ty.texts_injective
      rw [← given.type, Ty.texts_singleton, type]
    have filled := given.filled
    rw [types] at filled
    have facts := filled.complete_of_no_descriptor (free p.json given.member)
    obtain ⟨v, values, same⟩ := List.map_eq_singleton_iff.mp facts.1
    rw [values] at facts single
    refine ⟨v, values, single v (by simp), by rw [same, type], ?_⟩
    intro json member
    rw [given.member] at member
    cases member
    exact complete_field.mp (facts.2 (by simp))

/-- A visit stays within the signature, unless it follows a variant. -/
theorem texts_subset_of_visits {ts ts' : List Ty} {json json' : Json}
    (visit : Visits (ts, json) (ts', json')) (closed : 'v' ∉ Ty.texts ts) :
    Ty.texts ts' ⊆ Ty.texts ts := by
  cases visit with
  | part several inside =>
      rw [Ty.texts_singleton]
      exact fun c here => List.mem_flatMap.mpr ⟨_, (List.of_mem_zip inside).1, here⟩
  | element plain inside => simp
  | key inside =>
      intro c here
      rw [Ty.texts_singleton] at here
      simp [here]
  | value inside =>
      intro c here
      rw [Ty.texts_singleton] at here
      simp [here]
  | content named member => simp at closed
  | fields =>
      intro c here
      simp [here]

/-- Where neither a descriptor nor a variant is in the signature, no descriptor is met. -/
theorem not_meetsDescriptor {ts : List Ty} (noDescriptor : 'h' ∉ Ty.texts ts)
    (noVariant : 'v' ∉ Ty.texts ts) (json : Json) : ¬ MeetsDescriptor ts json := by
  rintro ⟨j, walk⟩
  have kept : ∀ reached : List Ty × Json, Reaches (ts, json) reached →
      'h' ∉ Ty.texts reached.1 ∧ 'v' ∉ Ty.texts reached.1 := by
    intro reached walk
    induction walk with
    | refl => exact ⟨noDescriptor, noVariant⟩
    | tail _ visit ih =>
        have within := texts_subset_of_visits visit ih.2
        exact ⟨fun inside => ih.1 (within inside), fun inside => ih.2 (within inside)⟩
  exact (kept _ walk).1 List.mem_cons_self

/-- An argument of such a type is sent whole, whatever is requested. -/
theorem sendable_of_text {request : Json} {arg : Argument} {t : Ty} (single : t.Single)
    (type : arg.type = t.text) (noDescriptor : 'h' ∉ arg.type) (noVariant : 'v' ∉ arg.type) :
    Sendable request arg := by
  rw [type, ← Ty.texts_singleton] at noDescriptor noVariant
  exact ⟨t, single, type, fun json _ => not_meetsDescriptor noDescriptor noVariant json⟩

/-- A request that is filled is sent whole exactly when every argument is of a single
complete type and no descriptor is among what it asks for. -/
theorem fillArguments_whole_iff {M : Type} [LawfulWriter M] {message message' : M}
    {args : List Argument} {request : Json} (fresh : LawfulWriter.draft message = Draft.empty)
    (done : fillArguments message args request = .ok message') :
    (LawfulWriter.draft message').below = [] ∧
      (BodyFor args request (LawfulWriter.draft message').top.items ↔
        ∀ arg ∈ args, Sendable request arg) := by
  have alike := fillArguments_draft message args request
  rw [done, fresh] at alike
  obtain ⟨d, ok, same⟩ := alike.ok_left
  obtain ⟨parts, rfl, given, added⟩ := fillArguments_eq_ok.mp ok
  obtain ⟨single, final⟩ := (Draft.putAll_any rfl).mp added
  have items : (LawfulWriter.draft message').top.items = parts.flatMap ArgumentPart.values := by
    rw [same, final]
    rfl
  have each : ∀ p ∈ parts, p.OneValue request ↔ Sendable request p.arg := by
    intro p member
    apply oneValue_iff_sendable (given p member)
    intro v inside
    exact single v (List.mem_flatMap.mpr ⟨p, member, inside⟩)
  rw [items]
  refine ⟨by rw [same, final]; rfl, ?_⟩
  constructor
  · intro whole arg inside
    obtain ⟨p, member, rfl⟩ := List.mem_map.mp inside
    exact (each p member).mp (oneValue_of_bodyFor given whole p member)
  · intro sendable
    apply bodyFor_of_oneValue
    intro p member
    exact (each p member).mpr (sendable p.arg (List.mem_map_of_mem member))

/-- The arguments of a greeting: a text and a dict. -/
def greetingArgs : List Argument :=
  [{ name := "name".toList, type := "s".toList }, { name := "times".toList, type := "a\x7bsi\x7d".toList }]

def greetingTimes : Json := .object [("hello".toList, .unsigned ⟨2, by decide⟩)]

def greetingRequest : Json :=
  .object [("name".toList, .string "lamp".toList), ("times".toList, greetingTimes)]

def timesEntry : Ty := .entry (.basic .string) (.basic (.int .int32))

def greetingBody : List Value :=
  [.string (Dbus.zeroFree "lamp".toList),
    .array timesEntry [.entry (.string (Dbus.zeroFree "hello".toList)) (.int .int32 ⟨2, by decide⟩)]]

theorem greeting_whole : BodyFor greetingArgs greetingRequest greetingBody := by
  have done : fillArguments Draft.empty greetingArgs greetingRequest =
      .ok ⟨⟨none, .any, greetingBody⟩, []⟩ := rfl
  refine (fillArguments_whole_iff (M := Draft) rfl done).2.mpr ?_
  simp only [greetingArgs, List.forall_mem_cons]
  exact ⟨sendable_of_text (t := .basic .string) (by decide) rfl (by decide) (by decide),
    sendable_of_text (t := .array timesEntry) (by decide) rfl (by decide) (by decide), by simp⟩

/-- An argument of type `h` is left out of the body, and the call returns. -/
theorem descriptor_dropped :
    fillArguments Draft.empty [{ name := "fd".toList, type := "h".toList }]
        (.object [("fd".toList, .unsigned ⟨3, by decide⟩)]) = .ok Draft.empty ∧
      ¬ BodyFor [{ name := "fd".toList, type := "h".toList }]
        (.object [("fd".toList, .unsigned ⟨3, by decide⟩)]) Draft.empty.top.items := by
  refine ⟨rfl, ?_⟩
  intro whole
  have count := whole.count
  contradiction

end Dbus2Http.Json2Message

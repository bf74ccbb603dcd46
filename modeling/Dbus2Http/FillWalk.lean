import Dbus2Http.FilledValues
import Mathlib.Logic.Relation

set_option autoImplicit false

namespace Dbus2Http.Json2Message

open Cxx (Str Throws)
open Dbus (IntTy Ty Value Draft LawfulWriter)

/-! ### The calls inside a call -/

/-- From types and the JSON value given for them to those of a call made inside. -/
inductive Visits : List Ty × Json → List Ty × Json → Prop
  | part {ts : List Ty} {items : List Json} {t : Ty} {item : Json} (several : 1 < ts.length)
      (inside : (t, item) ∈ ts.zip items) : Visits (ts, .array items) ([t], item)
  | element {elem : Ty} {json item : Json} (plain : ∀ key value, elem ≠ .entry key value)
      (inside : item ∈ json.elements) : Visits ([.array elem], json) ([elem], item)
  | key {key value : Ty} {json : Json} {item : Str × Json} (inside : item ∈ json.items) :
      Visits ([.array (.entry key value)], json) ([key], .string item.1)
  | value {key value : Ty} {json : Json} {item : Str × Json} (inside : item ∈ json.items) :
      Visits ([.array (.entry key value)], json) ([value], item.2)
  | content {t : Ty} {json held : Json}
      (named : json.member? "variant".toList = some (.string t.text))
      (member : json.member? "value".toList = some held) : Visits ([.variant], json) ([t], held)
  | fields {fields : List Ty} {json : Json} : Visits ([.struct fields], json) (fields, json)

abbrev Reaches := Relation.ReflTransGen Visits

/-- What a call stands for is made up of what the calls inside it stand for. -/
theorem Filled.visits {rule : IntegerRule} {ts ts' : List Ty} {json json' : Json} {vs : List Value}
    (filled : Filled rule ts json vs) (visit : Visits (ts, json) (ts', json')) :
    ∃ vs', Filled rule ts' json' vs' := by
  cases visit with
  | part several inside =>
      obtain ⟨parts, rfl, whole, _, each⟩ := filled.of_several several
      rw [Json.array.inj whole, List.zip_map'] at inside
      obtain ⟨p, member, same⟩ := List.mem_map.mp inside
      cases same
      exact ⟨_, each p member⟩
  | element plain inside =>
      obtain ⟨parts, visited, types, _, each⟩ := filled.of_array plain
      rw [visited] at inside
      obtain ⟨p, member, same⟩ := List.mem_map.mp inside
      rw [← types p member, ← same]
      exact ⟨_, each p member⟩
  | key inside =>
      obtain ⟨parts, visited, _, _, _, keys, _⟩ := filled.of_dict
      rw [visited] at inside
      obtain ⟨p, member, same⟩ := List.mem_map.mp inside
      rw [← same]
      exact ⟨_, keys p member⟩
  | value inside =>
      obtain ⟨parts, visited, _, _, _, _, values⟩ := filled.of_dict
      rw [visited] at inside
      obtain ⟨p, member, same⟩ := List.mem_map.mp inside
      rw [← same]
      exact ⟨_, values p member⟩
  | content named member =>
      obtain ⟨content, _, _, inner⟩ := filled.of_variant named member
      exact ⟨_, inner⟩
  | fields =>
      obtain ⟨inner, _, _, filled⟩ := filled.of_struct
      exact ⟨inner, filled⟩

theorem Filled.reaches {rule : IntegerRule} {ts ts' : List Ty} {json json' : Json} {vs : List Value}
    (filled : Filled rule ts json vs) (walk : Reaches (ts, json) (ts', json')) :
    ∃ vs', Filled rule ts' json' vs' := by
  generalize start : (ts, json) = first at walk
  generalize final : (ts', json') = last at walk
  induction walk using Relation.ReflTransGen.head_induction_on generalizing ts json vs with
  | refl =>
      cases start.trans final.symm
      exact ⟨vs, filled⟩
  | head visit _ ih =>
      rename_i middle
      rw [← start] at visit
      obtain ⟨values, inner⟩ := filled.visits visit
      exact ih inner rfl

/-! ### Integers -/

/-- The integer a JSON number is, unchanged. -/
def Kept : IntegerRule := fun t json n =>
  Converted t json n ∧ ∀ k, json.asInteger? = some k → n.val = k

/-- All JSON integers that meet an integer type are representable in it. -/
def Representable (ts : List Ty) (json : Json) : Prop :=
  ∀ t j n, Reaches (ts, json) ([.basic (.int t)], j) → j.asInteger? = some n → t.Holds n

theorem Representable.visits {ts ts' : List Ty} {json json' : Json}
    (representable : Representable ts json) (visit : Visits (ts, json) (ts', json')) :
    Representable ts' json' :=
  fun t j n walk => representable t j n (.head visit walk)

theorem Converted.kept {t : IntTy} {json : Json} {n : t.Val} (converted : Converted t json n)
    (inside : ∀ k, json.asInteger? = some k → t.Holds k) : Kept t json n := by
  refine ⟨converted, ?_⟩
  intro k stored
  rcases converted with ⟨k', stored', wrapped⟩ | ⟨text, k', spelled, _⟩
  · rw [stored] at stored'
    cases stored'
    rw [wrapped, IntTy.wrap_of_holds (inside k stored)]
  · rw [spelled] at stored
    contradiction

/-- Without an integer that is out of range every integer is kept. -/
theorem Filled.kept {ts : List Ty} {json : Json} {vs : List Value}
    (filled : Filled Converted ts json vs) (representable : Representable ts json) :
    Filled Kept ts json vs := by
  induction filled with
  | none json => exact .none json
  | several parts several each ih =>
      refine .several parts several ?_
      intro p member
      apply ih p member
      apply representable.visits
      refine .part (by simpa using several) ?_
      rw [List.zip_map']
      exact List.mem_map_of_mem member
  | bool b => exact .bool b
  | int read => exact .int (read.kept fun k stored => representable _ _ _ .refl stored)
  | double read => exact .double read
  | string s => exact .string s
  | unixFd json => exact .unixFd json
  | variant single named member type filled ih =>
      exact .variant single named member type (ih (representable.visits (.content named member)))
  | array element splits plain container parts visited types each ih =>
      refine .array element splits plain container parts visited types ?_
      intro p member
      apply ih p member
      rw [types p member]
      apply representable.visits
      refine .element plain ?_
      rw [visited]
      exact List.mem_map_of_mem member
  | @dict key value json element container parts visited types keys values ihKeys ihValues =>
      have listed : ∀ p ∈ parts, (p.name, p.json) ∈ json.items := by
        intro p member
        rw [visited]
        exact List.mem_map_of_mem member
      refine .dict element container parts visited types ?_ ?_
      · intro p member
        exact ihKeys p member (representable.visits (.key (listed p member)))
      · intro p member
        exact ihValues p member (representable.visits (.value (listed p member)))
  | struct single types filled ih =>
      exact .struct single types (ih (representable.visits .fields))

theorem Filled.representable {ts : List Ty} {json : Json} {vs : List Value}
    (filled : Filled Kept ts json vs) : Representable ts json := by
  intro t j n walk stored
  obtain ⟨values, inner⟩ := filled.reaches walk
  generalize one : [Ty.basic (.int t)] = us at inner
  cases inner with
  | several parts several => exact absurd one (one_ne_several several _)
  | @int t' _ m read =>
      cases one
      rw [← read.2 n stored]
      exact m.property
  | _ => cases one

/-- The promise about one integer: it is appended as it is if the type represents it,
and refused otherwise. -/
def KeepsInteger {M : Type} [LawfulWriter M] (message : M) (t : IntTy) (json : Json) (n : Int) :
    Prop :=
  (∀ inside : t.Holds n, ∃ message', fillMessage message [t.code] json = .ok message' ∧
    (LawfulWriter.draft message).put (.int t ⟨n, inside⟩) = some (LawfulWriter.draft message')) ∧
  (¬ t.Holds n → Throws (fillMessage message [t.code] json))

theorem keepsInteger_iff {M : Type} [LawfulWriter M] {message : M} {t : IntTy} {json : Json} {n : Int}
    (stored : json.asInteger? = some n)
    (taken : ((LawfulWriter.draft message).top.slots.take (.basic (.int t))).isSome) :
    KeepsInteger message t json n ↔ t.Holds n := by
  have wrapped : Filled Converted [.basic (.int t)] json [.int t (t.wrap n)] :=
    .int (.inl ⟨n, stored, rfl⟩)
  have accepted : ((LawfulWriter.draft message).put (.int t (t.wrap n))).isSome := by
    rw [Draft.put, Option.isSome_map, Value.typeOf_int]
    exact taken
  obtain ⟨d, put⟩ := Option.isSome_iff_exists.mp accepted
  obtain ⟨message', done, same⟩ := fillMessage_returns wrapped
    ((Draft.putAll_singleton _ _).trans put)
  constructor
  · intro keeps
    by_contra outside
    rw [Ty.texts_singleton] at done
    exact (keeps.2 outside).ne_ok message' done
  · intro inside
    refine ⟨?_, fun outside => absurd inside outside⟩
    intro inside'
    refine ⟨message', ?_, ?_⟩
    · rw [← done, Ty.texts_singleton]
      rfl
    · rw [same, ← put, IntTy.wrap_of_holds inside']

/-- An integer reaches the bus unchanged exactly when its type represents it: for one
integer wherever a message takes it, and for all integers of a request that is filled. -/
theorem fillMessage_keeps_integers_iff {M : Type} [LawfulWriter M] (message : M) :
    (∀ t json n, json.asInteger? = some n →
      ((LawfulWriter.draft message).top.slots.take (.basic (.int t))).isSome →
        (KeepsInteger message t json n ↔ t.Holds n)) ∧
    (∀ sig json message', fillMessage message sig json = .ok message' →
      ((∃ ts vs, sig = Ty.texts ts ∧ Filled Kept ts json vs ∧
          (LawfulWriter.draft message).putAll vs = some (LawfulWriter.draft message')) ↔
        ∀ ts, sig = Ty.texts ts → Representable ts json)) := by
  refine ⟨fun t json n stored taken => keepsInteger_iff stored taken, ?_⟩
  intro sig json message' done
  constructor
  · rintro ⟨ts, vs, rfl, filled, _⟩ us same
    rw [← Ty.texts_injective same]
    exact filled.representable
  · intro representable
    obtain ⟨ts, vs, rfl, filled, added⟩ := fillMessage_added done
    exact ⟨ts, vs, rfl, filled.kept (representable ts rfl), added⟩

theorem fillMessage_keeps_two_hundred :
    KeepsInteger Draft.empty .byte (.unsigned ⟨200, by decide⟩) 200 ∧
      ((∃ ts vs, "y".toList = Ty.texts ts ∧ Filled Kept ts (.unsigned ⟨200, by decide⟩) vs ∧
          Draft.empty.putAll vs = some ⟨⟨none, .any, [.int .byte ⟨200, by decide⟩]⟩, []⟩) ↔
        ∀ ts, "y".toList = Ty.texts ts → Representable ts (.unsigned ⟨200, by decide⟩)) :=
  ⟨((fillMessage_keeps_integers_iff Draft.empty).1 .byte _ 200 rfl rfl).mpr (by decide),
    (fillMessage_keeps_integers_iff Draft.empty).2 "y".toList _ _ rfl⟩

/-- 300 does not fit into a byte and is sent as 44. -/
theorem fillMessage_changes_integer :
    fillMessage Draft.empty "y".toList (.unsigned ⟨300, by decide⟩) =
        .ok ⟨⟨none, .any, [.int .byte ⟨44, by decide⟩]⟩, []⟩ ∧
      ¬ KeepsInteger Draft.empty .byte (.unsigned ⟨300, by decide⟩) 300 := by
  refine ⟨rfl, ?_⟩
  intro keeps
  have outside : ¬ IntTy.byte.Holds 300 := by decide
  exact (keeps.2 outside).ne_ok _ rfl

end Dbus2Http.Json2Message

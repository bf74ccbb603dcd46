import Dbus2Http.CodecRoundTrip

set_option autoImplicit false

namespace Dbus2Http

open Cxx (Str Throws)
open Dbus (IntTy Basic Ty Value Cursor Draft LawfulReader)
open Message2Json (Env Reads Extracts ofBasic ofInt bareEnv)

/-! ### The texts of dict keys -/

/-- The key types whose texts are the numbers and strings themselves: an unsigned 64-bit
number is not always its own text. -/
def PlainKey (key : Basic) : Prop := key = .string ∨ ∃ t, t ≠ IntTy.uint64 ∧ key = .int t

/-- The text of a key. -/
def textOfKey : Value → Str
  | .int _ n => Cxx.toDecimal n.val
  | .string s => s.val
  | _ => []

theorem PlainKey.keyCode {key : Basic} (plain : PlainKey key) : KeyCode key :=
  plain.imp_right fun ⟨t, _, number⟩ => ⟨t, number⟩

theorem PlainKey.keyText {key : Basic} (plain : PlainKey key) {k : Value}
    (type : k.typeOf = .basic key) : (ofBasic k).keyText = textOfKey k := by
  rcases plain with text | ⟨t, narrow, number⟩
  · subst text
    cases k with
    | string s => rfl
    | _ => simp [Value.typeOf] at type
  · subst number
    cases k with
    | int t n =>
        cases type
        have stored : (ofBasic (.int t n)).asInteger? = some n.val := asInteger?_ofInt t n
        rw [keyText_of_asInteger? stored,
          (IntTy.wrap_eq_iff _ _).mpr (Json2Message.holds_int64 narrow n.property)]
        rfl
    | _ => simp [Value.typeOf] at type

/-! ### Dicts -/

/-- An entry of a dict, with what its value is read as. -/
structure DictEntry where
  key : Value
  value : Value
  json : Json

/-- The entries of a dict under a key type and a value type: under distinct keys, each
with a value that is read on its own. -/
structure DictEntries (env : Env) (key : Basic) (t : Ty) (entries : List DictEntry) : Prop where
  types : ∀ e ∈ entries, e.key.typeOf = .basic key ∧ e.value.typeOf = t
  distinct : (entries.map DictEntry.key).Nodup
  values : ∀ e ∈ entries, Reads env [e.value] e.json

def DictEntry.entry (e : DictEntry) : Value := .entry e.key e.value

def DictEntry.member (e : DictEntry) : Str × Json := (textOfKey e.key, e.json)

/-- One member for each entry, named by its key and holding what its value is read as, in
a value of the kind that a dict is filled from. -/
structure ObjectOf (entries : List DictEntry) (json : Json) : Prop where
  object : ∃ members, json = .object members ∧ members.length = entries.length
  member : ∀ e ∈ entries, json.member? (textOfKey e.key) = some e.json

theorem DictEntries.texts_distinct {env : Env} {key : Basic} (plain : PlainKey key) {t : Ty}
    {entries : List DictEntry} (dict : DictEntries env key t entries) :
    ((entries.map DictEntry.member).map Prod.fst).Nodup := by
  have texts : (entries.map DictEntry.member).map Prod.fst =
      (entries.map DictEntry.key).map textOfKey := by
    rw [List.map_map, List.map_map]
    rfl
  rw [texts]
  apply dict.distinct.map_on
  intro k inside l inside' same
  obtain ⟨e, member, rfl⟩ := List.mem_map.mp inside
  obtain ⟨f, member', rfl⟩ := List.mem_map.mp inside'
  have eType := (dict.types e member).1
  have fType := (dict.types f member').1
  apply plain.keyCode.text_injective eType fType
  rw [plain.keyText eType, plain.keyText fType]
  exact same

theorem DictEntries.reads {env : Env} {key : Basic} (plain : PlainKey key) {t : Ty}
    {entries : List DictEntry} (dict : DictEntries env key t entries) :
    Reads env [.array (.entry (.basic key) t) (entries.map DictEntry.entry)]
      (Json.ofAssignments (entries.map DictEntry.member)) := by
  have read := reads_entries plain.keyCode dict.types dict.values
  have members : (entries.map fun e => ((ofBasic e.key).keyText, e.json)) =
      entries.map DictEntry.member := by
    apply List.map_congr_left
    intro e inside
    rw [plain.keyText (dict.types e inside).1]
    rfl
  rw [members] at read
  exact read

theorem objectOf_iff {env : Env} {key : Basic} (plain : PlainKey key) {t : Ty}
    {entries : List DictEntry} (dict : DictEntries env key t entries) :
    ObjectOf entries (Json.ofAssignments (entries.map DictEntry.member)) ↔ entries ≠ [] := by
  have assigned := Json.ofAssignments_object_iff (entries.map DictEntry.member)
  rw [List.length_map, ne_eq, List.map_eq_nil_iff] at assigned
  constructor
  · rintro ⟨⟨members, object, _⟩, _⟩ rfl
    cases object
  · intro some
    have distinct := dict.texts_distinct plain
    refine ⟨assigned.mpr ⟨some, distinct⟩, ?_⟩
    intro e inside
    have assigned : e.member ∈ entries.map DictEntry.member := List.mem_map_of_mem inside
    exact Json.member?_ofAssignments distinct assigned

end Dbus2Http

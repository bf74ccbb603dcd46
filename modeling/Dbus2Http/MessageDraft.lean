import Dbus2Http.TypedValue

set_option autoImplicit false

namespace Dbus

open Cxx (Str)

/-- What an open container still takes: the message itself takes any sequence of
complete types, an array any number of its element, the others a fixed list. -/
inductive Slots
  | any
  | many (elem : Ty)
  | seq (expected : List Ty)
deriving DecidableEq

def Slots.take : Slots → Ty → Option Slots
  | .any, t => if t.Single then some .any else none
  | .many elem, t => if t = elem then some (.many elem) else none
  | .seq [], _ => none
  | .seq (u :: rest), t => if t = u then some (.seq rest) else none

inductive ContainerKind
  | array | struct | variant | dictEntry
deriving DecidableEq, Repr

/-- The type of a container opened with the given contents, and what it takes. The
contents have to be well formed for the kind of container. -/
def described : ContainerKind → Str → Option (Ty × Slots)
  | .array, contents => (Ty.ofText? true contents).map fun elem => (.array elem, .many elem)
  | .variant, contents => (Ty.ofText? false contents).map fun t => (.variant, .seq [t])
  | .struct, contents =>
      match Ty.ofText? false ('(' :: (contents ++ [')'])) with
      | some (.struct fields) => some (.struct fields, .seq fields)
      | _ => none
  | .dictEntry, contents =>
      match Ty.ofText? true ('{' :: (contents ++ ['}'])) with
      | some (.entry key value) => some (.entry key value, .seq [key, value])
      | _ => none

theorem described_array_iff {contents : Str} {t : Ty} {slots : Slots} :
    described .array contents = some (t, slots) ↔
      ∃ elem : Ty, elem.text = contents ∧ elem.Element ∧ t = .array elem ∧ slots = .many elem := by
  simp only [described, Option.map_eq_some_iff, Ty.ofText?_eq_some, Prod.mk.injEq, Ty.Element]
  constructor
  · rintro ⟨elem, ⟨text, valid⟩, rfl, rfl⟩
    exact ⟨elem, text, valid, rfl, rfl⟩
  · rintro ⟨elem, text, valid, rfl, rfl⟩
    exact ⟨elem, ⟨text, valid⟩, rfl, rfl⟩

theorem described_variant_iff {contents : Str} {t : Ty} {slots : Slots} :
    described .variant contents = some (t, slots) ↔
      ∃ content : Ty, content.text = contents ∧ content.Single ∧ t = .variant ∧
        slots = .seq [content] := by
  simp only [described, Option.map_eq_some_iff, Ty.ofText?_eq_some, Prod.mk.injEq, Ty.Single]
  constructor
  · rintro ⟨content, ⟨text, valid⟩, rfl, rfl⟩
    exact ⟨content, text, valid, rfl, rfl⟩
  · rintro ⟨content, text, valid, rfl, rfl⟩
    exact ⟨content, ⟨text, valid⟩, rfl, rfl⟩

theorem described_struct_iff {contents : Str} {t : Ty} {slots : Slots} :
    described .struct contents = some (t, slots) ↔
      ∃ fields : List Ty, Ty.texts fields = contents ∧ (Ty.struct fields).Single ∧
        t = .struct fields ∧ slots = .seq fields := by
  constructor
  · intro found
    simp only [described] at found
    split at found
    · rename_i fields read
      obtain ⟨text, valid⟩ := Ty.ofText?_eq_some.mp read
      rw [Ty.text_struct] at text
      cases found
      exact ⟨fields, List.append_cancel_right (List.cons.inj text).2, valid, rfl, rfl⟩
    · contradiction
  · rintro ⟨fields, rfl, valid, rfl, rfl⟩
    have read : Ty.ofText? false ('(' :: (Ty.texts fields ++ [')'])) = some (.struct fields) :=
      Ty.ofText?_eq_some.mpr ⟨Ty.text_struct fields, valid⟩
    simp only [described, read]

theorem described_dictEntry_iff {contents : Str} {t : Ty} {slots : Slots} :
    described .dictEntry contents = some (t, slots) ↔
      ∃ key value : Ty, key.text ++ value.text = contents ∧ (Ty.entry key value).Element ∧
        t = .entry key value ∧ slots = .seq [key, value] := by
  constructor
  · intro found
    simp only [described] at found
    split at found
    · rename_i key value read
      obtain ⟨text, valid⟩ := Ty.ofText?_eq_some.mp read
      rw [Ty.text_entry] at text
      cases found
      exact ⟨key, value, List.append_cancel_right (List.cons.inj text).2, valid, rfl, rfl⟩
    · contradiction
  · rintro ⟨key, value, rfl, valid, rfl, rfl⟩
    have read : Ty.ofText? true ('{' :: (key.text ++ value.text ++ ['}'])) =
        some (.entry key value) := Ty.ofText?_eq_some.mpr ⟨Ty.text_entry key value, valid⟩
    simp only [described, read]

/-! ### A message being written -/

/-- An open container: `kind` is absent for the message itself. -/
structure Frame where
  kind : Option ContainerKind
  slots : Slots
  items : List Value

/-- The value a completely filled container holds. -/
def Frame.finish (frame : Frame) : Option Value :=
  match frame.kind, frame.slots, frame.items with
  | some .array, .many elem, items => some (.array elem items)
  | some .struct, .seq [], items => some (.struct items)
  | some .variant, .seq [], [content] => some (.variant content)
  | some .dictEntry, .seq [], [key, value] => some (.entry key value)
  | _, _, _ => none

/-- A message under construction, as the tree of typed values it already holds:
the innermost open container and the ones around it. -/
structure Draft where
  top : Frame
  below : List Frame

namespace Draft

def empty : Draft := ⟨⟨none, .any, []⟩, []⟩

/-- A whole value is added where its type is expected. -/
def put (d : Draft) (v : Value) : Option Draft :=
  (d.top.slots.take v.typeOf).map fun slots =>
    { d with top := { d.top with slots := slots, items := d.top.items ++ [v] } }

def putAll (d : Draft) (vs : List Value) : Option Draft := vs.foldlM put d

/-- Opening checks the contents and that the container is expected here. -/
def openContainer (d : Draft) (kind : ContainerKind) (contents : Str) : Option Draft :=
  match described kind contents with
  | some (t, inner) =>
      (d.top.slots.take t).map fun slots =>
        { top := ⟨some kind, inner, []⟩, below := { d.top with slots := slots } :: d.below }
  | none => none

/-- Closing demands that nothing is missing; the value goes to the container around. -/
def closeContainer (d : Draft) : Option Draft :=
  match d.below, d.top.finish with
  | parent :: below, some v =>
      some { top := { parent with items := parent.items ++ [v] }, below := below }
  | _, _ => none

@[simp] theorem putAll_nil (d : Draft) : d.putAll [] = some d := rfl

theorem putAll_cons (d : Draft) (v : Value) (vs : List Value) :
    d.putAll (v :: vs) = (d.put v).bind fun d => d.putAll vs := rfl

theorem putAll_append (d : Draft) (vs ws : List Value) :
    d.putAll (vs ++ ws) = (d.putAll vs).bind fun d => d.putAll ws :=
  List.foldlM_append

theorem putAll_singleton (d : Draft) (v : Value) : d.putAll [v] = d.put v := by
  rw [putAll_cons]
  cases d.put v <;> rfl

theorem putAll_append_eq_some {d final : Draft} {vs ws : List Value} :
    d.putAll (vs ++ ws) = some final ↔
      ∃ middle, d.putAll vs = some middle ∧ middle.putAll ws = some final := by
  rw [putAll_append, Option.bind_eq_some_iff]

/-- Adding values appends them to the open container and touches nothing else. -/
theorem put_frame {d d' : Draft} {v : Value} (added : d.put v = some d') :
    d'.top.items = d.top.items ++ [v] ∧ d'.top.kind = d.top.kind ∧ d'.below = d.below := by
  simp only [put, Option.map_eq_some_iff] at added
  obtain ⟨slots, _, rfl⟩ := added
  exact ⟨rfl, rfl, rfl⟩

theorem putAll_frame {d d' : Draft} {vs : List Value} (added : d.putAll vs = some d') :
    d'.top.items = d.top.items ++ vs ∧ d'.top.kind = d.top.kind ∧ d'.below = d.below := by
  induction vs generalizing d with
  | nil =>
      cases Option.some.inj added
      exact ⟨by simp, rfl, rfl⟩
  | cons v vs ih =>
      rw [putAll_cons, Option.bind_eq_some_iff] at added
      obtain ⟨middle, first, rest⟩ := added
      obtain ⟨items, kind, below⟩ := put_frame first
      obtain ⟨items', kind', below'⟩ := ih rest
      refine ⟨?_, kind'.trans kind, below'.trans below⟩
      rw [items', items, List.append_assoc, List.singleton_append]

theorem putAll_any {d d' : Draft} {vs : List Value} (root : d.top.slots = .any) :
    d.putAll vs = some d' ↔ (∀ v ∈ vs, v.typeOf.Single) ∧
      d' = { d with top := { d.top with items := d.top.items ++ vs } } := by
  induction vs generalizing d with
  | nil => simp [eq_comm]
  | cons v vs ih =>
      rw [putAll_cons, put, root]
      by_cases single : v.typeOf.Single
      · simp only [Slots.take, single, ↓reduceIte, Option.map_some, Option.bind_some]
        rw [ih rfl]
        simp [single, root]
      · simp [Slots.take, single]

/-- An array takes exactly the values of its element type. -/
theorem putAll_many {d d' : Draft} {elem : Ty} (vs : List Value) (slots : d.top.slots = .many elem) :
    d.putAll vs = some d' ↔ (∀ v ∈ vs, v.typeOf = elem) ∧
      d' = { d with top := { d.top with items := d.top.items ++ vs } } := by
  induction vs generalizing d with
  | nil => simp [eq_comm]
  | cons v vs ih =>
      rw [putAll_cons, put, slots]
      by_cases same : v.typeOf = elem
      · simp only [Slots.take, same, ↓reduceIte, Option.map_some, Option.bind_some]
        rw [ih rfl]
        simp [same, slots]
      · simp [Slots.take, same]

/-- A container with a fixed list takes values along that list. -/
theorem putAll_seq {d d' : Draft} {expected : List Ty} (vs : List Value)
    (slots : d.top.slots = .seq expected) :
    d.putAll vs = some d' ↔ ∃ rest, expected = vs.map Value.typeOf ++ rest ∧
      d' = { d with top := { d.top with slots := .seq rest, items := d.top.items ++ vs } } := by
  induction vs generalizing d expected with
  | nil =>
      simp only [putAll_nil, Option.some.injEq, List.map_nil, List.nil_append, List.append_nil,
        exists_eq_left']
      rw [← slots, eq_comm]
  | cons v vs ih =>
      rw [putAll_cons, put, slots]
      cases expected with
      | nil => simp [Slots.take]
      | cons t ts =>
          by_cases same : v.typeOf = t
          · simp only [Slots.take, same, ↓reduceIte, Option.map_some, Option.bind_some]
            rw [ih rfl]
            simp [same]
          · simp only [Slots.take, same, ↓reduceIte, Option.map_none, Option.bind_none, false_iff,
              reduceCtorEq]
            rintro ⟨rest, shape, _⟩
            exact same (List.cons.inj shape).1.symm

/-! ### A container is the value it holds -/

theorem openContainer_eq_some {d inner : Draft} {kind : ContainerKind} {contents : Str} :
    d.openContainer kind contents = some inner ↔
      ∃ t slots taken, described kind contents = some (t, slots) ∧ d.top.slots.take t = some taken ∧
        inner = { top := ⟨some kind, slots, []⟩, below := { d.top with slots := taken } :: d.below } := by
  unfold openContainer
  cases described kind contents with
  | none => simp
  | some pair =>
      obtain ⟨t, slots⟩ := pair
      simp only [Option.map_eq_some_iff, Option.some.injEq, Prod.mk.injEq]
      constructor
      · rintro ⟨taken, take, same⟩
        exact ⟨t, slots, taken, ⟨rfl, rfl⟩, take, same.symm⟩
      · rintro ⟨_, _, taken, ⟨rfl, rfl⟩, take, same⟩
        exact ⟨taken, take, same.symm⟩

/-- Filling a container and closing it adds its value, if the value has the type
the container was opened with. -/
theorem close_eq_put {d inner filled : Draft} {kind : ContainerKind} {contents : Str} {t : Ty}
    {slots : Slots} {vs : List Value} {v : Value} (shape : described kind contents = some (t, slots))
    (opened : d.openContainer kind contents = some inner) (added : inner.putAll vs = some filled)
    (done : filled.top.finish = some v) (type : v.typeOf = t) :
    filled.closeContainer = d.put v := by
  obtain ⟨t', slots', taken, shape', take, rfl⟩ := openContainer_eq_some.mp opened
  rw [shape] at shape'
  cases shape'
  obtain ⟨_, _, below⟩ := putAll_frame added
  simp only [closeContainer, below, done, put, type, take, Option.map_some]

/-- A draft that can take the container's value can be opened for it. -/
theorem openContainer_of_put {d final : Draft} {kind : ContainerKind} {contents : Str}
    {slots : Slots} {v : Value} (shape : described kind contents = some (v.typeOf, slots))
    (put : d.put v = some final) :
    ∃ inner, d.openContainer kind contents = some inner ∧ inner.top = ⟨some kind, slots, []⟩ := by
  simp only [Draft.put, Option.map_eq_some_iff] at put
  obtain ⟨taken, take, _⟩ := put
  exact ⟨_, openContainer_eq_some.mpr ⟨_, _, taken, shape, take, rfl⟩, rfl⟩

/-- A struct written field by field. -/
theorem write_struct {d final : Draft} {fields : List Value}
    (single : (Value.struct fields).typeOf.Single) (put : d.put (.struct fields) = some final) :
    ∃ inner filled, d.openContainer .struct (Ty.texts (fields.map Value.typeOf)) = some inner ∧
      inner.putAll fields = some filled ∧ filled.closeContainer = some final := by
  rw [Value.typeOf_struct] at single
  have shape := described_struct_iff.mpr ⟨fields.map Value.typeOf, rfl, single, rfl, rfl⟩
  obtain ⟨inner, opened, top⟩ := openContainer_of_put (v := .struct fields)
    (by rw [Value.typeOf_struct]; exact shape) put
  have filled := (putAll_seq (d := inner) fields (by rw [top])).mpr ⟨[], by simp, rfl⟩
  refine ⟨inner, _, opened, filled, ?_⟩
  rw [close_eq_put shape opened filled (v := .struct fields) (by simp [Frame.finish, top])
    (Value.typeOf_struct fields), put]

/-- A variant written around its content. -/
theorem write_variant {d final : Draft} {content : Value} (single : content.typeOf.Single)
    (put : d.put (.variant content) = some final) :
    ∃ inner filled, d.openContainer .variant content.typeOf.text = some inner ∧
      inner.put content = some filled ∧ filled.closeContainer = some final := by
  have shape := described_variant_iff.mpr ⟨content.typeOf, rfl, single, rfl, rfl⟩
  obtain ⟨inner, opened, top⟩ := openContainer_of_put (v := .variant content) shape put
  have filled := (putAll_seq (d := inner) [content] (by rw [top])).mpr ⟨[], by simp, rfl⟩
  refine ⟨inner, _, opened, (putAll_singleton inner content) ▸ filled, ?_⟩
  rw [close_eq_put shape opened filled (v := .variant content) (by simp [Frame.finish, top]) rfl, put]

/-- An array written item by item. -/
theorem write_array {d final : Draft} {elem : Ty} {items : List Value} (element : elem.Element)
    (same : ∀ item ∈ items, item.typeOf = elem) (put : d.put (.array elem items) = some final) :
    ∃ inner filled, d.openContainer .array elem.text = some inner ∧
      inner.putAll items = some filled ∧ filled.closeContainer = some final := by
  have shape := described_array_iff.mpr ⟨elem, rfl, element, rfl, rfl⟩
  obtain ⟨inner, opened, top⟩ := openContainer_of_put (v := .array elem items) shape put
  have slots : inner.top.slots = .many elem := by rw [top]
  have filled := (putAll_many items slots).mpr ⟨same, rfl⟩
  refine ⟨inner, _, opened, filled, ?_⟩
  rw [close_eq_put shape opened filled (v := .array elem items) (by simp [Frame.finish, top]) rfl, put]

/-- A dict entry written as its key and its value. -/
theorem write_entry {d final : Draft} {key value : Value}
    (element : (Value.entry key value).typeOf.Element) (put : d.put (.entry key value) = some final) :
    ∃ inner keyed filled,
      d.openContainer .dictEntry (key.typeOf.text ++ value.typeOf.text) = some inner ∧
      inner.put key = some keyed ∧ keyed.put value = some filled ∧
      filled.closeContainer = some final := by
  have shape := described_dictEntry_iff.mpr ⟨key.typeOf, value.typeOf, rfl, element, rfl, rfl⟩
  obtain ⟨inner, opened, top⟩ := openContainer_of_put (v := .entry key value) shape put
  have both := (putAll_seq (d := inner) [key, value] (by rw [top])).mpr ⟨[], by simp, rfl⟩
  obtain ⟨keyed, first, second⟩ := putAll_append_eq_some.mp
    (show inner.putAll ([key] ++ [value]) = some _ from both)
  rw [putAll_singleton] at first second
  refine ⟨inner, keyed, _, opened, first, second, ?_⟩
  rw [close_eq_put shape opened both (v := .entry key value) (by simp [Frame.finish, top]) rfl, put]

/-! ### Conversely, what was opened and closed is a value of that container -/

theorem closeContainer_finish {d final : Draft} (closed : d.closeContainer = some final) :
    ∃ v, d.top.finish = some v := by
  unfold closeContainer at closed
  split at closed
  · rename_i v _ done
    exact ⟨v, done⟩
  · contradiction

theorem finish_seq {frame : Frame} {rest : List Ty} {v : Value} (slots : frame.slots = .seq rest)
    (done : frame.finish = some v) : rest = [] := by
  unfold Frame.finish at done
  rw [slots] at done
  cases rest with
  | nil => rfl
  | cons t ts => split at done <;> simp_all

theorem closed_struct {d inner filled final : Draft} {contents : Str} {vs : List Value}
    (opened : d.openContainer .struct contents = some inner) (added : inner.putAll vs = some filled)
    (closed : filled.closeContainer = some final) :
    contents = Ty.texts (vs.map Value.typeOf) ∧ (Value.struct vs).typeOf.Single ∧
      d.put (.struct vs) = some final := by
  obtain ⟨t, slots, taken, shape, take, same⟩ := openContainer_eq_some.mp opened
  obtain ⟨fields, text, single, rfl, rfl⟩ := described_struct_iff.mp shape
  obtain ⟨rest, exact, filledEq⟩ := (putAll_seq vs (by rw [same])).mp added
  obtain ⟨v, done⟩ := closeContainer_finish closed
  obtain rfl := finish_seq (by rw [filledEq]) done
  rw [List.append_nil] at exact
  subst exact
  have whole := close_eq_put shape opened added (v := .struct vs)
    (by rw [filledEq, same]; simp [Frame.finish]) (Value.typeOf_struct vs)
  exact ⟨text.symm, by rw [Value.typeOf_struct]; exact single, by rw [← whole, closed]⟩

theorem closed_variant {d inner filled final : Draft} {contents : Str} {vs : List Value}
    (opened : d.openContainer .variant contents = some inner) (added : inner.putAll vs = some filled)
    (closed : filled.closeContainer = some final) :
    ∃ content, vs = [content] ∧ contents = content.typeOf.text ∧ content.typeOf.Single ∧
      d.put (.variant content) = some final := by
  obtain ⟨t, slots, taken, shape, take, same⟩ := openContainer_eq_some.mp opened
  obtain ⟨content, text, single, rfl, rfl⟩ := described_variant_iff.mp shape
  obtain ⟨rest, exact, filledEq⟩ := (putAll_seq vs (by rw [same])).mp added
  obtain ⟨v, done⟩ := closeContainer_finish closed
  obtain rfl := finish_seq (by rw [filledEq]) done
  rw [List.append_nil] at exact
  obtain ⟨x, rfl⟩ : ∃ x, vs = [x] := by
    rw [← List.length_eq_one_iff, ← List.length_map (f := Value.typeOf), ← exact]
    rfl
  obtain rfl : content = x.typeOf := by simpa using exact
  have whole := close_eq_put shape opened added (v := .variant x)
    (by rw [filledEq, same]; simp [Frame.finish]) rfl
  exact ⟨x, rfl, text.symm, single, by rw [← whole, closed]⟩

theorem closed_entry {d inner filled final : Draft} {contents : Str} {vs : List Value}
    (opened : d.openContainer .dictEntry contents = some inner)
    (added : inner.putAll vs = some filled) (closed : filled.closeContainer = some final) :
    ∃ key value, vs = [key, value] ∧ contents = key.typeOf.text ++ value.typeOf.text ∧
      (Value.entry key value).typeOf.Element ∧ d.put (.entry key value) = some final := by
  obtain ⟨t, slots, taken, shape, take, same⟩ := openContainer_eq_some.mp opened
  obtain ⟨keyTy, valueTy, text, element, rfl, rfl⟩ := described_dictEntry_iff.mp shape
  obtain ⟨rest, exact, filledEq⟩ := (putAll_seq vs (by rw [same])).mp added
  obtain ⟨v, done⟩ := closeContainer_finish closed
  obtain rfl := finish_seq (by rw [filledEq]) done
  rw [List.append_nil] at exact
  obtain ⟨key, value, rfl⟩ : ∃ key value, vs = [key, value] := by
    rw [← List.length_eq_two, ← List.length_map (f := Value.typeOf), ← exact]
    rfl
  obtain ⟨rfl, rfl⟩ : keyTy = key.typeOf ∧ valueTy = value.typeOf := by simpa using exact
  have whole := close_eq_put shape opened added (v := .entry key value)
    (by rw [filledEq, same]; simp [Frame.finish]) rfl
  exact ⟨key, value, rfl, text.symm, element, by rw [← whole, closed]⟩

theorem closed_array {d inner filled final : Draft} {contents : Str} {vs : List Value}
    (opened : d.openContainer .array contents = some inner) (added : inner.putAll vs = some filled)
    (closed : filled.closeContainer = some final) :
    ∃ elem : Ty, contents = elem.text ∧ elem.Element ∧ (∀ v ∈ vs, v.typeOf = elem) ∧
      d.put (.array elem vs) = some final := by
  obtain ⟨t, slots, taken, shape, take, same⟩ := openContainer_eq_some.mp opened
  obtain ⟨elem, text, element, rfl, rfl⟩ := described_array_iff.mp shape
  have slots : inner.top.slots = .many elem := by rw [same]
  obtain ⟨typed, filledEq⟩ := (putAll_many vs slots).mp added
  have whole := close_eq_put shape opened added (v := .array elem vs)
    (by rw [filledEq, same]; simp [Frame.finish]) rfl
  exact ⟨elem, text.symm, element, typed, by rw [← whole, closed]⟩

end Draft

/-! ### The message library -/

/-- The operations of a message being written; each raises an error where it
returns nothing. -/
class MessageWriter (M : Type) where
  append : M → Value → Option M
  openContainer : ContainerKind → M → Str → Option M
  closeContainer : ContainerKind → M → Option M

/-- A message is an ideal typed value tree: each operation acts on the tree written
so far as the draft prescribes, and raises an error exactly where the draft does. -/
class LawfulWriter (M : Type) extends MessageWriter M where
  draft : M → Draft
  append_draft : ∀ (m : M) (v : Value), v.typeOf.isBasic = true →
    (append m v).map draft = (draft m).put v
  open_draft : ∀ (kind : ContainerKind) (m : M) (contents : Str),
    (openContainer kind m contents).map draft = (draft m).openContainer kind contents
  close_draft : ∀ (kind : ContainerKind) (m : M),
    (closeContainer kind m).map draft = (draft m).closeContainer

instance : LawfulWriter Draft where
  append := Draft.put
  openContainer kind d contents := d.openContainer kind contents
  closeContainer _ d := d.closeContainer
  draft := id
  append_draft _ _ _ := by simp
  open_draft _ _ _ := by simp
  close_draft _ _ := by simp

/-! ### Simulation between two writers -/

/-- Two writers do the same on related messages, and raise errors alike. -/
structure WriteAlike {M N : Type} [MessageWriter M] [MessageWriter N] (R : M → N → Prop) : Prop where
  append : ∀ {m n} {v : Value}, R m n → v.typeOf.isBasic = true →
    Option.Rel R (MessageWriter.append m v) (MessageWriter.append n v)
  openContainer : ∀ {m n} (kind : ContainerKind) (contents : Str), R m n →
    Option.Rel R (MessageWriter.openContainer kind m contents)
      (MessageWriter.openContainer kind n contents)
  closeContainer : ∀ {m n} (kind : ContainerKind), R m n →
    Option.Rel R (MessageWriter.closeContainer kind m) (MessageWriter.closeContainer kind n)

theorem rel_of_map {α β : Type} {view : α → β} {first : Option α} {second : Option β}
    (same : first.map view = second) : Option.Rel (fun a b => view a = b) first second := by
  rw [← same]
  cases first with
  | none => exact .none
  | some a => exact .some rfl

theorem writeAlike_self (M : Type) [MessageWriter M] : WriteAlike (@Eq M) where
  append := by
    intro m n v same _
    rw [← same]
    exact @rel_of_map _ _ id _ _ (congrFun Option.map_id _)
  openContainer := by
    intro m n kind contents same
    rw [← same]
    exact @rel_of_map _ _ id _ _ (congrFun Option.map_id _)
  closeContainer := by
    intro m n kind same
    rw [← same]
    exact @rel_of_map _ _ id _ _ (congrFun Option.map_id _)

/-- A message and its draft. -/
theorem writeAlike_draft (M : Type) [LawfulWriter M] :
    WriteAlike (fun (m : M) (d : Draft) => LawfulWriter.draft m = d) where
  append := by
    intro m d v same basic
    rw [← same]
    exact rel_of_map (LawfulWriter.append_draft m v basic)
  openContainer := by
    intro m d kind contents same
    rw [← same]
    exact rel_of_map (LawfulWriter.open_draft kind m contents)
  closeContainer := by
    intro m d kind same
    rw [← same]
    exact rel_of_map (LawfulWriter.close_draft kind m)

end Dbus

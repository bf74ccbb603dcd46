import Dbus2Http.SignatureGrammar
import Mathlib.Data.List.Perm.Basic

set_option autoImplicit false

namespace Dbus

open Cxx (Str cStr cStr_zero_free cStr_eq_self)

/-- A string on the wire holds no zero byte. -/
abbrev ZeroFree := { s : Str // '\x00' ∉ s }

def zeroFree (s : Str) : ZeroFree := ⟨cStr s, cStr_zero_free s⟩

theorem zeroFree_val (s : ZeroFree) : zeroFree s.val = s :=
  Subtype.ext (cStr_eq_self s.property)

/-- A value of the wire format. Containers carry their element type, so an empty
array still has a type; a descriptor is the number the receiver sees. -/
inductive Value
  | bool (b : Bool)
  | int (t : IntTy) (n : t.Val)
  | double (d : Float)
  | string (s : ZeroFree)
  | objectPath (s : ZeroFree)
  | signature (s : ZeroFree)
  | unixFd (fd : Int)
  | variant (content : Value)
  | array (elem : Ty) (items : List Value)
  | struct (fields : List Value)
  | entry (key value : Value)

namespace Value

def typeOf : Value → Ty
  | bool _ => .basic .bool
  | int t _ => .basic (.int t)
  | double _ => .basic .double
  | string _ => .basic .string
  | objectPath _ => .basic .objectPath
  | signature _ => .basic .signature
  | unixFd _ => .basic .unixFd
  | variant _ => .variant
  | array elem _ => .array elem
  | struct fields => .struct (typesOf fields)
  | entry key value => .entry key.typeOf value.typeOf
where typesOf : List Value → List Ty
  | [] => []
  | field :: rest => field.typeOf :: typesOf rest

theorem typesOf_eq (vs : List Value) : typeOf.typesOf vs = vs.map typeOf := by
  induction vs with
  | nil => rfl
  | cons v vs ih => rw [typeOf.typesOf, ih, List.map_cons]

@[simp] theorem typeOf_struct (fields : List Value) :
    (Value.struct fields).typeOf = .struct (fields.map typeOf) := by
  rw [typeOf, typesOf_eq]

@[simp] theorem typeOf_bool (b : Bool) : (Value.bool b).typeOf = .basic .bool := rfl

@[simp] theorem typeOf_int (t : IntTy) (n : t.Val) : (Value.int t n).typeOf = .basic (.int t) := rfl

@[simp] theorem typeOf_double (d : Float) : (Value.double d).typeOf = .basic .double := rfl

@[simp] theorem typeOf_string (s : ZeroFree) : (Value.string s).typeOf = .basic .string := rfl

@[simp] theorem typeOf_unixFd (fd : Int) : (Value.unixFd fd).typeOf = .basic .unixFd := rfl

@[simp] theorem typeOf_variant (v : Value) : (Value.variant v).typeOf = .variant := rfl

@[simp] theorem typeOf_array (elem : Ty) (items : List Value) :
    (Value.array elem items).typeOf = .array elem := rfl

@[simp] theorem typeOf_entry (key value : Value) :
    (Value.entry key value).typeOf = .entry key.typeOf value.typeOf := rfl

/-- Every container holds values of the types it declares. -/
inductive Typed : Value → Prop
  | bool (b : Bool) : Typed (.bool b)
  | int (t : IntTy) (n : t.Val) : Typed (.int t n)
  | double (d : Float) : Typed (.double d)
  | string (s : ZeroFree) : Typed (.string s)
  | objectPath (s : ZeroFree) : Typed (.objectPath s)
  | signature (s : ZeroFree) : Typed (.signature s)
  | unixFd (fd : Int) : Typed (.unixFd fd)
  | variant {content : Value} (single : content.typeOf.Single) (typed : Typed content) :
      Typed (.variant content)
  | array {elem : Ty} {items : List Value} (element : elem.Element)
      (same : ∀ item ∈ items, item.typeOf = elem) (typed : ∀ item ∈ items, Typed item) :
      Typed (.array elem items)
  | struct {fields : List Value} (some : fields ≠ [])
      (single : ∀ field ∈ fields, field.typeOf.Single) (typed : ∀ field ∈ fields, Typed field) :
      Typed (.struct fields)
  | entry {key value : Value} (basic : key.typeOf.isBasic = true) (single : value.typeOf.Single)
      (typedKey : Typed key) (typedValue : Typed value) : Typed (.entry key value)

/-- Two values that differ only in the order of their dict entries. -/
inductive Reorder : Value → Value → Prop
  | refl (v : Value) : Reorder v v
  | variant {v w : Value} (content : Reorder v w) : Reorder (.variant v) (.variant w)
  | struct {vs ws : List Value} (length : vs.length = ws.length)
      (fields : ∀ p ∈ vs.zip ws, Reorder p.1 p.2) : Reorder (.struct vs) (.struct ws)
  | array {elem : Ty} {vs ws : List Value} (length : vs.length = ws.length)
      (items : ∀ p ∈ vs.zip ws, Reorder p.1 p.2) : Reorder (.array elem vs) (.array elem ws)
  | entry {key v w : Value} (value : Reorder v w) : Reorder (.entry key v) (.entry key w)
  | dict {key value : Ty} {entries moved : List Value} {w : Value} (perm : entries.Perm moved)
      (rest : Reorder (.array (.entry key value) moved) w) :
      Reorder (.array (.entry key value) entries) w

theorem Reorder.typeOf_eq {v w : Value} (same : Reorder v w) : v.typeOf = w.typeOf := by
  induction same with
  | refl v => rfl
  | variant => rfl
  | @struct vs ws length fields ih =>
      rw [typeOf_struct, typeOf_struct]
      congr 1
      apply List.ext_getElem (by simpa using length)
      intro i left right
      simp only [List.length_map] at left right
      have member : (vs[i], ws[i]) ∈ vs.zip ws := by
        rw [List.mem_iff_getElem]
        exact ⟨i, by simp only [List.length_zip]; omega, by simp⟩
      simpa using ih _ member
  | array => rfl
  | entry value ih => simp [ih]
  | dict perm rest ih => simpa using ih

end Value

end Dbus

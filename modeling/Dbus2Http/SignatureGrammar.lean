import Dbus2Http.CxxRuntime

set_option autoImplicit false

namespace Dbus

open Cxx (Str)

/-! ### Basic types -/

/-- The fixed-width integers of the wire format. -/
inductive IntTy
  | byte | int16 | uint16 | int32 | uint32 | int64 | uint64
deriving DecidableEq, Repr

namespace IntTy

def code : IntTy → Char
  | byte => 'y'
  | int16 => 'n'
  | uint16 => 'q'
  | int32 => 'i'
  | uint32 => 'u'
  | int64 => 'x'
  | uint64 => 't'

def bits : IntTy → Nat
  | byte => 8
  | int16 | uint16 => 16
  | int32 | uint32 => 32
  | int64 | uint64 => 64

def signed : IntTy → Bool
  | int16 | int32 | int64 => true
  | byte | uint16 | uint32 | uint64 => false

def min (t : IntTy) : Int := if t.signed then -2 ^ (t.bits - 1) else 0

def max (t : IntTy) : Int := if t.signed then 2 ^ (t.bits - 1) - 1 else 2 ^ t.bits - 1

/-- The integers a type represents. -/
def Holds (t : IntTy) (n : Int) : Prop := t.min ≤ n ∧ n ≤ t.max

instance (t : IntTy) (n : Int) : Decidable (t.Holds n) := inferInstanceAs (Decidable (_ ∧ _))

abbrev Val (t : IntTy) := { n : Int // t.Holds n }

theorem max_eq (t : IntTy) : t.max = t.min + 2 ^ t.bits - 1 := by
  cases t <;> decide

theorem bits_pos (t : IntTy) : (0 : Int) < 2 ^ t.bits := by
  cases t <;> decide

/-- A conversion to the type keeps the low bits: the representative modulo `2 ^ bits`. -/
def wrap (t : IntTy) (n : Int) : t.Val :=
  ⟨t.min + (n - t.min) % 2 ^ t.bits, by
    have lower := Int.emod_nonneg (n - t.min) (Int.ne_of_gt t.bits_pos)
    have upper := Int.emod_lt_of_pos (n - t.min) t.bits_pos
    have top := t.max_eq
    constructor <;> omega⟩

theorem wrap_of_holds {t : IntTy} {n : Int} (inside : t.Holds n) : t.wrap n = ⟨n, inside⟩ := by
  apply Subtype.ext
  have top := t.max_eq
  obtain ⟨lower, upper⟩ := inside
  change t.min + (n - t.min) % 2 ^ t.bits = n
  rw [Int.emod_eq_of_lt (by omega) (by omega)]
  omega

theorem wrap_val (t : IntTy) (n : t.Val) : t.wrap n.val = n := wrap_of_holds n.property

/-- A conversion is exact on the integers the type represents and on no other. -/
theorem wrap_eq_iff (t : IntTy) (n : Int) : (t.wrap n).val = n ↔ t.Holds n := by
  constructor
  · intro same
    exact same ▸ (t.wrap n).property
  · intro inside
    rw [wrap_of_holds inside]

end IntTy

/-- The basic types, which have one-character codes. -/
inductive Basic
  | bool
  | int (t : IntTy)
  | double
  | string
  | objectPath
  | signature
  | unixFd
deriving DecidableEq, Repr

def Basic.code : Basic → Char
  | bool => 'b'
  | int t => t.code
  | double => 'd'
  | string => 's'
  | objectPath => 'o'
  | signature => 'g'
  | unixFd => 'h'

def Basic.all : List Basic :=
  [.bool, .int .byte, .int .int16, .int .uint16, .int .int32, .int .uint32, .int .int64,
    .int .uint64, .double, .string, .objectPath, .signature, .unixFd]

theorem Basic.mem_all (b : Basic) : b ∈ Basic.all := by
  cases b with
  | int t => cases t <;> decide
  | _ => decide

def Basic.ofCode? (c : Char) : Option Basic := Basic.all.find? (fun b => b.code == c)

@[simp] theorem Basic.ofCode?_code (b : Basic) : Basic.ofCode? b.code = some b :=
  (by decide : ∀ b ∈ Basic.all, Basic.ofCode? b.code = some b) b b.mem_all

/-- No basic code opens or closes a container. -/
theorem Basic.code_plain (b : Basic) :
    b.code ≠ 'v' ∧ b.code ≠ 'a' ∧ b.code ≠ '(' ∧ b.code ≠ ')' ∧ b.code ≠ '{' ∧ b.code ≠ '}' :=
  (by decide : ∀ b ∈ Basic.all, b.code ≠ 'v' ∧ b.code ≠ 'a' ∧ b.code ≠ '(' ∧ b.code ≠ ')' ∧
    b.code ≠ '{' ∧ b.code ≠ '}') b b.mem_all

/-! ### Types -/

/-- A type of the wire format. A dict entry is a type of its own here; the grammar
admits it only as the element of an array. -/
inductive Ty
  | basic (b : Basic)
  | variant
  | array (elem : Ty)
  | struct (fields : List Ty)
  | entry (key value : Ty)

namespace Ty

@[elab_as_elim]
theorem induction {P : Ty → Prop} (basic : ∀ b, P (.basic b)) (variant : P .variant)
    (array : ∀ elem, P elem → P (.array elem))
    (struct : ∀ fields, (∀ field ∈ fields, P field) → P (.struct fields))
    (entry : ∀ key value, P key → P value → P (.entry key value)) (t : Ty) : P t :=
  @Ty.rec P (fun fields => ∀ field ∈ fields, P field) basic variant array struct entry
    (by simp) (fun _ _ first rest => by simpa using ⟨first, rest⟩) t

/-- The signature of a type. -/
def text : Ty → Str
  | .basic b => [b.code]
  | .variant => ['v']
  | .array elem => 'a' :: elem.text
  | .struct fields => '(' :: (fieldsText fields ++ [')'])
  | .entry key value => '{' :: (key.text ++ value.text ++ ['}'])
where fieldsText : List Ty → Str
  | [] => []
  | field :: rest => field.text ++ fieldsText rest

/-- The signature of a sequence of types. -/
def texts (ts : List Ty) : Str := ts.flatMap text

@[simp] theorem texts_nil : texts [] = [] := rfl

@[simp] theorem texts_cons (t : Ty) (ts : List Ty) : texts (t :: ts) = t.text ++ texts ts := rfl

@[simp] theorem texts_append (first second : List Ty) :
    texts (first ++ second) = texts first ++ texts second := List.flatMap_append

theorem fieldsText_eq (ts : List Ty) : text.fieldsText ts = texts ts := by
  induction ts with
  | nil => rfl
  | cons t ts ih => rw [text.fieldsText, ih, texts_cons]

@[simp] theorem text_basic (b : Basic) : (Ty.basic b).text = [b.code] := rfl

@[simp] theorem text_variant : Ty.variant.text = ['v'] := rfl

@[simp] theorem text_array (elem : Ty) : (Ty.array elem).text = 'a' :: elem.text := rfl

@[simp] theorem text_struct (fields : List Ty) :
    (Ty.struct fields).text = '(' :: (texts fields ++ [')']) := by
  rw [text, fieldsText_eq]

@[simp] theorem text_entry (key value : Ty) :
    (Ty.entry key value).text = '{' :: (key.text ++ value.text ++ ['}']) := rfl

theorem text_ne_nil (t : Ty) : t.text ≠ [] := by
  cases t <;> simp

theorem text_length_pos (t : Ty) : 0 < t.text.length :=
  List.length_pos_iff.mpr t.text_ne_nil

theorem texts_singleton (t : Ty) : texts [t] = t.text := List.append_nil _

/-- No zero byte occurs in a signature. -/
theorem text_zero_free (t : Ty) : '\x00' ∉ t.text := by
  induction t using Ty.induction with
  | basic b =>
      have visible := (by decide : ∀ b ∈ Basic.all, '\x00' ≠ b.code) b b.mem_all
      simpa using visible
  | variant => decide
  | array elem ih => simpa using ih
  | struct fields ih =>
      have inner : '\x00' ∉ texts fields := by
        simp only [texts, List.mem_flatMap, not_exists, not_and]
        exact ih
      simpa using inner
  | entry key value ihKey ihValue => simpa using ⟨ihKey, ihValue⟩

theorem texts_zero_free (ts : List Ty) : '\x00' ∉ texts ts := by
  simp only [texts, List.mem_flatMap, not_exists, not_and]
  intro t _
  exact t.text_zero_free

/-! ### Reading a signature back -/

mutual

/-- The type at the front of a signature, with what follows it. -/
def readType : Nat → Str → Option (Ty × Str)
  | 0, _ => none
  | _ + 1, [] => none
  | fuel + 1, c :: rest =>
      if c = 'v' then some (.variant, rest)
      else if c = 'a' then do
        let (elem, rest) ← readType fuel rest
        some (.array elem, rest)
      else if c = '(' then do
        let (fields, rest) ← readFields fuel rest
        some (.struct fields, rest)
      else if c = '{' then do
        let (key, rest) ← readType fuel rest
        let (value, rest) ← readType fuel rest
        if rest.head? = some '}' then some (.entry key value, rest.tail) else none
      else (Basic.ofCode? c).map fun b => (.basic b, rest)

/-- The types up to the closing bracket of a struct. -/
def readFields : Nat → Str → Option (List Ty × Str)
  | 0, _ => none
  | fuel + 1, s =>
      if s.head? = some ')' then some ([], s.tail)
      else do
        let (first, rest) ← readType fuel s
        let (others, rest) ← readFields fuel rest
        some (first :: others, rest)

end

/-- No signature begins with the bracket that closes a struct. -/
theorem text_head_ne_close (t : Ty) (rest : Str) : (t.text ++ rest).head? ≠ some ')' := by
  cases t with
  | basic b => simp [b.code_plain]
  | _ => simp

theorem readFields_texts {ts : List Ty}
    (readable : ∀ t ∈ ts, ∀ rest fuel, t.text.length ≤ fuel →
      readType fuel (t.text ++ rest) = some (t, rest))
    (fuel : Nat) (enough : (texts ts).length < fuel) (rest : Str) :
    readFields fuel (texts ts ++ ')' :: rest) = some (ts, rest) := by
  induction ts generalizing fuel with
  | nil =>
      obtain ⟨fuel, rfl⟩ := Nat.exists_eq_succ_of_ne_zero (Nat.ne_of_gt enough)
      simp [readFields]
  | cons t ts ih =>
      obtain ⟨fuel, rfl⟩ := Nat.exists_eq_succ_of_ne_zero (show fuel ≠ 0 by omega)
      have positive := t.text_length_pos
      simp only [texts_cons, List.length_append] at enough
      have first := readable t (by simp) (texts ts ++ ')' :: rest) fuel (by omega)
      have others := ih (fun u inside => readable u (by simp [inside])) fuel (by omega)
      simp only [readFields, texts_cons, List.append_assoc, text_head_ne_close, ↓reduceIte, first,
        others, Option.bind_eq_bind, Option.bind_some]

theorem readType_text (t : Ty) : ∀ rest fuel, t.text.length ≤ fuel →
    readType fuel (t.text ++ rest) = some (t, rest) := by
  induction t using Ty.induction with
  | basic b =>
      intro rest fuel enough
      obtain ⟨fuel, rfl⟩ := Nat.exists_eq_succ_of_ne_zero (show fuel ≠ 0 by simp at enough; omega)
      simp [readType, b.code_plain]
  | variant =>
      intro rest fuel enough
      obtain ⟨fuel, rfl⟩ := Nat.exists_eq_succ_of_ne_zero (show fuel ≠ 0 by simp at enough; omega)
      simp [readType]
  | array elem ih =>
      intro rest fuel enough
      obtain ⟨fuel, rfl⟩ := Nat.exists_eq_succ_of_ne_zero (show fuel ≠ 0 by simp at enough; omega)
      have inner := ih rest fuel (by simpa using enough)
      simp [readType, inner]
  | struct fields ih =>
      intro rest fuel enough
      obtain ⟨fuel, rfl⟩ := Nat.exists_eq_succ_of_ne_zero (show fuel ≠ 0 by simp at enough; omega)
      have shorter : (texts fields).length < fuel := by
        simp only [text_struct, List.length_cons, List.length_append, List.length_nil] at enough
        omega
      have inner := readFields_texts ih fuel shorter rest
      simp [readType, inner]
  | entry key value ihKey ihValue =>
      intro rest fuel enough
      obtain ⟨fuel, rfl⟩ := Nat.exists_eq_succ_of_ne_zero (show fuel ≠ 0 by simp at enough; omega)
      simp only [text_entry, List.length_cons, List.length_append, List.length_nil] at enough
      have first := ihKey (value.text ++ '}' :: rest) fuel (by omega)
      have second := ihValue ('}' :: rest) fuel (by omega)
      simp [readType, first, second]

/-- A type is determined by its text, even when more text follows. -/
theorem text_append_inj {t u : Ty} {first second : Str} (same : t.text ++ first = u.text ++ second) :
    t = u ∧ first = second := by
  have left := readType_text t first (max t.text.length u.text.length) (Nat.le_max_left _ _)
  have right := readType_text u second (max t.text.length u.text.length) (Nat.le_max_right _ _)
  rw [same, right] at left
  simpa [eq_comm] using left

theorem text_injective {t u : Ty} (same : t.text = u.text) : t = u :=
  (text_append_inj (congrArg (· ++ []) same)).1

theorem texts_injective {ts us : List Ty} (same : texts ts = texts us) : ts = us := by
  induction ts generalizing us with
  | nil =>
      cases us with
      | nil => rfl
      | cons u us => simp [text_ne_nil] at same
  | cons t ts ih =>
      cases us with
      | nil => simp [text_ne_nil] at same
      | cons u us =>
          obtain ⟨rfl, rest⟩ := text_append_inj same
          rw [ih rest]

instance : DecidableEq Ty := fun t u =>
  decidable_of_iff (t.text = u.text) ⟨text_injective, congrArg text⟩

/-! ### Well-formed types -/

def isBasic : Ty → Bool
  | .basic _ => true
  | _ => false

/-- The D-Bus grammar: a struct has a field, a dict entry has a basic key and
occurs only where `allowEntry` says that an array is being described. -/
def wellFormed (allowEntry : Bool) : Ty → Bool
  | .basic _ => true
  | .variant => true
  | .array elem => elem.wellFormed true
  | .struct fields => !fields.isEmpty && allWellFormed fields
  | .entry key value => allowEntry && key.isBasic && value.wellFormed false
where allWellFormed : List Ty → Bool
  | [] => true
  | field :: rest => field.wellFormed false && allWellFormed rest

theorem allWellFormed_iff (ts : List Ty) :
    wellFormed.allWellFormed ts = true ↔ ∀ t ∈ ts, t.wellFormed false = true := by
  induction ts with
  | nil => simp [wellFormed.allWellFormed]
  | cons t ts ih => simp [wellFormed.allWellFormed, ih]

/-- A single complete type. -/
def Single (t : Ty) : Prop := t.wellFormed false = true

/-- A type that may be the element of an array. -/
def Element (t : Ty) : Prop := t.wellFormed true = true

instance (t : Ty) : Decidable t.Single := inferInstanceAs (Decidable (_ = _))

instance (t : Ty) : Decidable t.Element := inferInstanceAs (Decidable (_ = _))

@[simp] theorem single_basic (b : Basic) : (Ty.basic b).Single := by
  simp [Single, wellFormed]

@[simp] theorem single_variant : Ty.variant.Single := by
  simp [Single, wellFormed]

@[simp] theorem single_array (elem : Ty) : (Ty.array elem).Single ↔ elem.Element := by
  simp [Single, Element, wellFormed]

@[simp] theorem single_struct (fields : List Ty) :
    (Ty.struct fields).Single ↔ fields ≠ [] ∧ ∀ field ∈ fields, field.Single := by
  simp [Single, wellFormed, allWellFormed_iff]

@[simp] theorem not_single_entry (key value : Ty) : ¬ (Ty.entry key value).Single := by
  simp [Single, wellFormed]

@[simp] theorem element_entry (key value : Ty) :
    (Ty.entry key value).Element ↔ key.isBasic = true ∧ value.Single := by
  simp [Element, Single, wellFormed]

theorem Single.element {t : Ty} (single : t.Single) : t.Element := by
  cases t <;> simp_all [Single, Element, wellFormed]

/-- The well-formed type with a given text, if there is one. -/
def ofText? (allowEntry : Bool) (s : Str) : Option Ty :=
  match readType s.length s with
  | some (t, _) => if t.text = s ∧ t.wellFormed allowEntry = true then some t else none
  | none => none

theorem ofText?_eq_some {allowEntry : Bool} {s : Str} {t : Ty} :
    ofText? allowEntry s = some t ↔ t.text = s ∧ t.wellFormed allowEntry = true := by
  constructor
  · intro found
    unfold ofText? at found
    split at found
    · split at found
      · rename_i valid
        cases found
        exact valid
      · contradiction
    · contradiction
  · rintro ⟨rfl, valid⟩
    have read := readType_text t [] t.text.length (Nat.le_refl _)
    rw [List.append_nil] at read
    simp [ofText?, read, valid]

end Ty

end Dbus

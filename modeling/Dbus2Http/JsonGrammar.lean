import Dbus2Http.JsonValue

set_option autoImplicit false

/-! # JSON texts

The grammar of JSON over texts that have a character for each byte. What a numeral is stored as
is left open. -/

namespace JsonGrammar

open Cxx (Str)

/-! ### Strings -/

/-- The bytes of a Unicode character. -/
def utf8 (c : Char) : Str := (String.utf8EncodeChar c).map fun byte => Char.ofNat byte.toNat

/-- A character that stands for itself in a string. -/
def Plain (c : Char) : Prop := ' ' ≤ c ∧ c ≠ '"' ∧ c ≠ '\\'

instance (c : Char) : Decidable (Plain c) := inferInstanceAs (Decidable (_ ∧ _ ∧ _))

/-- A text that stands for itself in a string. -/
def PlainText (s : Str) : Prop := ∃ chars : List Char, (∀ c ∈ chars, Plain c) ∧ s = chars.flatMap utf8

/-- The letters behind a backslash with what they stand for. -/
def escapes : List (Char × Char) :=
  [('"', '"'), ('\\', '\\'), ('/', '/'), ('b', '\x08'), ('f', '\x0c'), ('n', '\n'), ('r', '\r'),
    ('t', '\t')]

def hexDigit? (c : Char) : Option Nat :=
  if '0' ≤ c ∧ c ≤ '9' then some (c.toNat - '0'.toNat)
  else if 'a' ≤ c ∧ c ≤ 'f' then some (c.toNat - 'a'.toNat + 10)
  else if 'A' ≤ c ∧ c ≤ 'F' then some (c.toNat - 'A'.toNat + 10)
  else none

/-- Four digits. -/
def fourHex? : Str → Option Nat
  | [a, b, c, d] => do
      let a ← hexDigit? a
      let b ← hexDigit? b
      let c ← hexDigit? c
      let d ← hexDigit? d
      return ((a * 16 + b) * 16 + c) * 16 + d
  | _ => none

/-- The text between two quotes with the bytes it stands for. -/
inductive Chars : Str → Str → Prop
  | nil : Chars [] []
  | plain {c : Char} {text s : Str} (plain : Plain c) (rest : Chars text s) :
      Chars (utf8 c ++ text) (utf8 c ++ s)
  | escape {letter c : Char} {text s : Str} (known : (letter, c) ∈ escapes) (rest : Chars text s) :
      Chars ('\\' :: letter :: text) (c :: s)
  | unicode {digits : Str} {c : Char} {text s : Str} (code : fourHex? digits = some c.toNat)
      (rest : Chars text s) : Chars ('\\' :: 'u' :: (digits ++ text)) (utf8 c ++ s)
  | surrogates {digits digits' : Str} {high low : Nat} {c : Char} {text s : Str}
      (first : fourHex? digits = some high) (second : fourHex? digits' = some low)
      (inside : 0xD800 ≤ high ∧ high < 0xDC00) (inside' : 0xDC00 ≤ low ∧ low < 0xE000)
      (code : c.toNat = 0x10000 + (high - 0xD800) * 0x400 + (low - 0xDC00)) (rest : Chars text s) :
      Chars ('\\' :: 'u' :: (digits ++ '\\' :: 'u' :: (digits' ++ text))) (utf8 c ++ s)

theorem length_utf8_le (c : Char) : (utf8 c).length ≤ 4 := by
  rw [utf8, List.length_map, String.length_utf8EncodeChar]
  exact c.utf8Size_le_four

theorem length_of_fourHex {digits : Str} {n : Nat} (code : fourHex? digits = some n) :
    digits.length = 4 := by
  unfold fourHex? at code
  split at code
  · rfl
  · contradiction

theorem PlainText.nil : PlainText [] := ⟨[], by simp, rfl⟩

theorem PlainText.cons {c : Char} {s : Str} (plain : Plain c) (rest : PlainText s) :
    PlainText (utf8 c ++ s) := by
  obtain ⟨chars, each, rfl⟩ := rest
  exact ⟨c :: chars, List.forall_mem_cons.mpr ⟨plain, each⟩, rfl⟩

theorem PlainText.chars {s : Str} (plain : PlainText s) : Chars s s := by
  obtain ⟨chars, each, rfl⟩ := plain
  induction chars with
  | nil => exact .nil
  | cons c chars ih =>
      obtain ⟨first, others⟩ := List.forall_mem_cons.mp each
      exact .plain first (ih others)

/-- An escape is longer than what it stands for. -/
theorem Chars.length_le {text s : Str} (chars : Chars text s) : s.length ≤ text.length := by
  induction chars with
  | nil => exact Nat.le_refl _
  | plain first rest ih =>
      rw [List.length_append, List.length_append]
      omega
  | escape known rest ih =>
      simp only [List.length_cons]
      omega
  | @unicode digits c text s code rest ih =>
      have four := length_of_fourHex code
      have small := length_utf8_le c
      simp only [List.length_cons, List.length_append]
      omega
  | @surrogates digits digits' high low c text s first second inside inside' code rest ih =>
      have four := length_of_fourHex first
      have small := length_utf8_le c
      simp only [List.length_cons, List.length_append]
      omega

theorem Chars.plain_or_longer {text s : Str} (chars : Chars text s) :
    text = s ∧ PlainText s ∨ s.length < text.length := by
  induction chars with
  | nil => exact .inl ⟨rfl, .nil⟩
  | plain first rest ih =>
      rcases ih with ⟨rfl, plain⟩ | longer
      · exact .inl ⟨rfl, plain.cons first⟩
      · refine .inr ?_
        rw [List.length_append, List.length_append]
        omega
  | escape known rest ih =>
      have short := rest.length_le
      refine .inr ?_
      simp only [List.length_cons]
      omega
  | @unicode digits c text s code rest ih =>
      have short := rest.length_le
      have four := length_of_fourHex code
      have small := length_utf8_le c
      refine .inr ?_
      simp only [List.length_cons, List.length_append]
      omega
  | @surrogates digits digits' high low c text s first second inside inside' code rest ih =>
      have short := rest.length_le
      have four := length_of_fourHex first
      have small := length_utf8_le c
      refine .inr ?_
      simp only [List.length_cons, List.length_append]
      omega

theorem Chars.plain_of_length {text s : Str} (chars : Chars text s) (same : text.length = s.length) :
    text = s ∧ PlainText s := by
  apply chars.plain_or_longer.resolve_right
  omega

/-! ### ASCII -/

def PlainAscii (s : Str) : Prop := ∀ c ∈ s, c.toNat < 128 ∧ Plain c

instance (s : Str) : Decidable (PlainAscii s) := List.decidableBAll _ s

theorem utf8_ascii {c : Char} (ascii : c.toNat < 128) : utf8 c = [c] := by
  have low : c.val.toNat ≤ 0x7f := Nat.le_of_lt_succ ascii
  rw [utf8, String.utf8EncodeChar]
  simp only [low, ↓reduceIte, List.map_cons, List.map_nil, UInt8.toNat_ofNat']
  rw [Nat.mod_eq_of_lt (by omega), ← Char.toNat, Char.ofNat_toNat]

theorem toNat_of_byte (byte : UInt8) : (Char.ofNat byte.toNat).toNat = byte.toNat := by
  have small := byte.toNat_lt
  have valid : byte.toNat.isValidChar := .inl (by omega)
  rw [Char.ofNat, dif_pos valid]
  rfl

/-- A byte below 128 begins no longer character. -/
theorem utf8_of_head {c first : Char} {rest : Str} (shape : utf8 c = first :: rest)
    (ascii : first.toNat < 128) : c = first ∧ rest = [] := by
  by_cases low : c.toNat < 128
  · rw [utf8_ascii low] at shape
    obtain ⟨same, none⟩ := List.cons.inj shape
    exact ⟨same, none.symm⟩
  · have high : ¬ c.val.toNat ≤ 0x7f := fun small => low (Nat.lt_succ_of_le small)
    rw [utf8, String.utf8EncodeChar] at shape
    simp only [high, ↓reduceIte] at shape
    exfalso
    split at shape
    · have lead := congrArg Char.toNat (List.cons.inj shape).1
      rw [toNat_of_byte, UInt8.toNat_ofNat'] at lead
      omega
    · split at shape
      · have lead := congrArg Char.toNat (List.cons.inj shape).1
        rw [toNat_of_byte, UInt8.toNat_ofNat'] at lead
        omega
      · have lead := congrArg Char.toNat (List.cons.inj shape).1
        rw [toNat_of_byte, UInt8.toNat_ofNat'] at lead
        omega

theorem plainText_cons_iff {c : Char} (ascii : c.toNat < 128) (s : Str) :
    PlainText (c :: s) ↔ Plain c ∧ PlainText s := by
  constructor
  · rintro ⟨chars, each, shape⟩
    cases chars with
    | nil =>
        rw [List.flatMap_nil] at shape
        exact absurd shape (List.cons_ne_nil c s)
    | cons d chars =>
        obtain ⟨first, others⟩ := List.forall_mem_cons.mp each
        cases form : utf8 d with
        | nil =>
            have some : utf8 d ≠ [] := by simp [utf8]
            exact absurd form some
        | cons byte bytes =>
            rw [List.flatMap_cons, form, List.cons_append] at shape
            obtain ⟨rfl, tails⟩ := List.cons.inj shape
            obtain ⟨rfl, none⟩ := utf8_of_head form ascii
            rw [none, List.nil_append] at tails
            exact ⟨first, chars, others, tails⟩
  · rintro ⟨plain, rest⟩
    have whole := rest.cons plain
    rwa [utf8_ascii ascii, List.singleton_append] at whole

theorem plainText_append_iff {front : Str} (ascii : PlainAscii front) (s : Str) :
    PlainText (front ++ s) ↔ PlainText s := by
  induction front with
  | nil => rfl
  | cons c front ih =>
      obtain ⟨first, others⟩ := List.forall_mem_cons.mp ascii
      rw [List.cons_append, plainText_cons_iff first.1, and_iff_right first.2, ih others]

theorem PlainAscii.plainText {s : Str} (ascii : PlainAscii s) : PlainText s := by
  rw [← List.append_nil s, plainText_append_iff ascii]
  exact .nil

/-! ### Values -/

def White (s : Str) : Prop := ∀ c ∈ s, c ∈ [' ', '\t', '\n', '\r']

def Digits (s : Str) : Prop := s ≠ [] ∧ ∀ c ∈ s, c.isDigit = true

inductive Numeral : Str → Prop
  | mk {minus whole fraction exponent : Str}
      (sign : minus = [] ∨ minus = ['-'])
      (integer : whole = ['0'] ∨ Digits whole ∧ whole.head? ≠ some '0')
      (point : fraction = [] ∨ ∃ digits, Digits digits ∧ fraction = '.' :: digits)
      (power : exponent = [] ∨ ∃ e ∈ ['e', 'E'], ∃ sign ∈ [[], ['+'], ['-']], ∃ digits,
        Digits digits ∧ exponent = e :: (sign ++ digits)) :
      Numeral (minus ++ (whole ++ (fraction ++ exponent)))

/-- A value with its text and the space around that. -/
structure Item where
  before : Str
  text : Str
  after : Str
  json : Json

def Item.whole (item : Item) : Str := item.before ++ (item.text ++ item.after)

def quoted (text : Str) : Str := '"' :: (text ++ ['"'])

/-- A member of an object: the text of its name and the name, and its value. -/
structure Member where
  before : Str
  text : Str
  after : Str
  name : Str
  value : Item

def Member.whole (member : Member) : Str :=
  member.before ++ (quoted member.text ++ (member.after ++ ':' :: member.value.whole))

/-- The text of a value without space around it. Of members with one name the last counts. -/
inductive Value (stored : Str → Json) : Str → Json → Prop
  | null : Value stored "null".toList .null
  | true : Value stored "true".toList (.bool Bool.true)
  | false : Value stored "false".toList (.bool Bool.false)
  | number {text : Str} (numeral : Numeral text) (kind : (stored text).typeName = "number".toList) :
      Value stored text (stored text)
  | string {text s : Str} (chars : Chars text s) : Value stored (quoted text) (.string s)
  | emptyArray {space : Str} (white : White space) :
      Value stored ('[' :: (space ++ [']'])) (.array [])
  | array {items : List Item} (some : items ≠ [])
      (spaces : ∀ item ∈ items, White item.before ∧ White item.after)
      (values : ∀ item ∈ items, Value stored item.text item.json) :
      Value stored ('[' :: ([','].intercalate (items.map Item.whole) ++ [']']))
        (.array (items.map Item.json))
  | emptyObject {space : Str} (white : White space) :
      Value stored ('{' :: (space ++ ['}'])) (.object [])
  | object {members : List Member} (some : members ≠ [])
      (spaces : ∀ member ∈ members, White member.before ∧ White member.after ∧
        White member.value.before ∧ White member.value.after)
      (names : ∀ member ∈ members, Chars member.text member.name)
      (values : ∀ member ∈ members, Value stored member.value.text member.value.json) :
      Value stored ('{' :: ([','].intercalate (members.map Member.whole) ++ ['}']))
        (.object (OrderedMap.insertAll
          (members.map fun member => (member.name, member.value.json)) []))

/-- What parsing the text gives. -/
def Denotes (stored : Str → Json) (text : Str) (json : Json) : Prop :=
  ∃ before after inner, text = before ++ (inner ++ after) ∧ White before ∧ White after ∧
    Value stored inner json

/-! ### An object with one string -/

theorem Value.of_string {stored : Str → Json} {text s : Str} (value : Value stored text (.string s)) :
    ∃ inner, text = quoted inner ∧ Chars inner s := by
  generalize same : Json.string s = json at value
  cases value with
  | number numeral kind =>
      rw [← same] at kind
      have other : "string".toList ≠ "number".toList := by decide
      exact absurd kind other
  | string chars =>
      cases same
      exact ⟨_, rfl, chars⟩
  | _ => cases same

/-- Of an object with one string the last member gives that string, whatever comes before. -/
theorem Value.of_single {stored : Str → Json} {text key s : Str}
    (value : Value stored text (.object [(key, .string s)])) :
    ∃ (members : List Member) (last : Member) (inner : Str),
      text = '{' :: ([','].intercalate (members.map Member.whole) ++ ['}']) ∧
      members.getLast? = some last ∧ Chars last.text key ∧ last.value.text = quoted inner ∧
      Chars inner s := by
  generalize same : Json.object [(key, .string s)] = json at value
  cases value with
  | number numeral kind =>
      rw [← same] at kind
      have other : "object".toList ≠ "number".toList := by decide
      exact absurd kind other
  | @object members some spaces names values =>
      obtain ⟨last, ends⟩ : ∃ last, members.getLast? = .some last :=
        ⟨_, List.getLast?_eq_some_getLast some⟩
      have inside := List.mem_of_getLast? ends
      have single := (Json.object.inj same).symm
      have entry := OrderedMap.last_of_insertAll
        (by rw [List.getLast?_map, ends]; rfl : _ = Option.some (last.name, last.value.json)) single
      obtain ⟨lastName, lastValue⟩ := Prod.mk.inj entry
      have nameChars := names last inside
      have valueText := values last inside
      rw [lastName] at nameChars
      rw [lastValue] at valueText
      obtain ⟨inner, quotes, chars⟩ := valueText.of_string
      exact ⟨members, last, inner, rfl, ends, nameChars, quotes, chars⟩
  | _ => cases same

theorem length_whole {member : Member} {inner : Str} (quotes : member.value.text = quoted inner) :
    member.whole.length = member.before.length + member.text.length + member.after.length +
      member.value.before.length + inner.length + member.value.after.length + 5 := by
  simp only [Member.whole, Item.whole, quotes, quoted, List.length_append, List.length_cons,
    List.length_nil]
  omega

/-- An object is as long as its last member at least, and longer by four when it has others. -/
theorem length_intercalate_members {members : List Member} {last : Member}
    (ends : members.getLast? = some last) :
    members = [last] ∨
      last.whole.length + 4 ≤ ([','].intercalate (members.map Member.whole)).length := by
  induction members with
  | nil => contradiction
  | cons first others ih =>
      cases others with
      | nil => exact .inl (by simpa using ends)
      | cons second others =>
          have later : (second :: others).getLast? = some last := by simpa using ends
          have three : 3 ≤ first.whole.length := by
            simp only [Member.whole, quoted, List.length_append, List.length_cons, List.length_nil]
            omega
          have joined : ([','].intercalate ((first :: second :: others).map Member.whole)).length =
              first.whole.length + 1 +
                ([','].intercalate ((second :: others).map Member.whole)).length := by
            simp [List.intercalate]
            omega
          refine .inr ?_
          rcases ih later with one | longer
          · rw [joined, one]
            simp [List.intercalate]
            omega
          · omega

theorem denotes_of_plain {stored : Str → Json} {key s : Str} (name : PlainText key)
    (plain : PlainText s) :
    Denotes stored ('{' :: (quoted key ++ ':' :: ' ' :: (quoted s ++ ['}'])))
      (.object [(key, .string s)]) := by
  let member : Member := ⟨[], key, [], key, ⟨[' '], quoted s, [], .string s⟩⟩
  have spaces : ∀ m ∈ [member], White m.before ∧ White m.after ∧
      White m.value.before ∧ White m.value.after := by
    rw [List.forall_mem_singleton]
    exact ⟨by simp [White, member], by simp [White, member], by simp [White, member],
      by simp [White, member]⟩
  refine ⟨[], [], _, ?_, by simp [White], by simp [White], .object (List.cons_ne_nil member [])
    spaces (List.forall_mem_singleton.mpr name.chars)
    (List.forall_mem_singleton.mpr (.string plain.chars))⟩
  simp [List.intercalate, member, Member.whole, Item.whole]

/-- An object written out around a string denotes just that string exactly when the string stands
for itself: what else the text may denote is shorter. -/
theorem denotes_member_iff {stored : Str → Json} {key : Str} (name : PlainText key) (s : Str) :
    Denotes stored ('{' :: (quoted key ++ ':' :: ' ' :: (quoted s ++ ['}'])))
      (.object [(key, .string s)]) ↔ PlainText s := by
  refine ⟨?_, denotes_of_plain name⟩
  rintro ⟨before, after, text, shape, -, -, value⟩
  obtain ⟨members, last, inner, rfl, ends, nameChars, quotes, chars⟩ := value.of_single
  have whole := congrArg List.length shape
  have nameLength := nameChars.length_le
  have textLength := chars.length_le
  have size := length_whole quotes
  simp only [quoted, List.length_append, List.length_cons, List.length_nil] at whole
  rcases length_intercalate_members ends with one | longer
  · have joined : [','].intercalate (members.map Member.whole) = last.whole := by
      rw [one]
      simp [List.intercalate]
    rw [joined] at whole shape
    by_cases equal : inner.length = s.length
    · exact (chars.plain_of_length equal).2
    · -- One character of the text is left, which is the blank behind the colon.
      have short : last.text.length = key.length := by omega
      have sameName := (nameChars.plain_of_length short).1
      have empty : ∀ space ∈ [before, last.before, last.after, last.value.before], space = [] := by
        simp only [List.forall_mem_cons, ← List.length_eq_zero_iff]
        refine ⟨by omega, by omega, by omega, by omega, by simp⟩
      simp only [List.forall_mem_cons] at empty
      obtain ⟨noBefore, noSpace, noAfter, noBlank, -⟩ := empty
      rw [noBefore, Member.whole, noSpace, sameName, noAfter, Item.whole, noBlank, quotes] at shape
      simp [quoted] at shape
  · omega

end JsonGrammar

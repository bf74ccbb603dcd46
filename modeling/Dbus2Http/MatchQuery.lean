import Dbus2Http.PercentText
import Dbus2Http.SignalSocket

set_option autoImplicit false

namespace Dbus2Http.SignalSocket

open Cxx (Str)
open PercentText

/-! ### The page -/

/-- The characters `encodeURIComponent` leaves as they are. -/
def unescaped : Str :=
  "ABCDEFGHIJKLMNOPQRSTUVWXYZabcdefghijklmnopqrstuvwxyz0123456789-_.!~*'()".toList

def hexDigits : Str := "0123456789ABCDEF".toList

def hexDigit (n : Nat) : Char := hexDigits[n]?.getD '0'

def percentEncode (b : UInt8) : Str := ['%', hexDigit (b.toNat / 16), hexDigit (b.toNat % 16)]

def encodeURIComponent (m : String) : Str :=
  m.toList.flatMap fun c =>
    if c ∈ unescaped then [c] else (String.utf8EncodeChar c).flatMap percentEncode

/-- The query of the address that `toggleWebSocket` connects to. -/
def matchQuery (m : String) : Str := "match=".toList ++ encodeURIComponent m

/-- A character as the bytes of a `std::string`. -/
def charBytes (c : Char) : Str := (String.utf8EncodeChar c).map fun b => Char.ofNat b.toNat

def utf8 (m : String) : Str := m.toList.flatMap charBytes

/-! ### The encoded rule as tokens -/

/-- A check of a few characters, one after another. -/
theorem forall_of_all {P : Char → Prop} [DecidablePred P] {cs : Str}
    (all : cs.all (fun c => P c) = true) : ∀ c ∈ cs, P c := by
  simpa using all

theorem unescaped_visible {c : Char} (inside : c ∈ unescaped) : c ≠ '%' :=
  forall_of_all (P := (· ≠ '%')) (by decide) c inside

theorem hexDigit_visible (n : Nat) : hexDigit n ≠ '%' := by
  unfold hexDigit
  cases found : hexDigits[n]? with
  | none => decide
  | some c => exact forall_of_all (P := (· ≠ '%')) (by decide) c (List.mem_of_getElem? found)

def byteToken (b : UInt8) : Token :=
  .escape (hexDigit (b.toNat / 16)) (hexDigit (b.toNat % 16))
    ⟨hexDigit_visible _, hexDigit_visible _⟩

def charTokens (c : Char) : List Token :=
  if inside : c ∈ unescaped then [.plain c (unescaped_visible inside)]
  else (String.utf8EncodeChar c).map byteToken

theorem texts_charTokens (c : Char) :
    texts (charTokens c) =
      if c ∈ unescaped then [c] else (String.utf8EncodeChar c).flatMap percentEncode := by
  unfold charTokens
  by_cases inside : c ∈ unescaped
  · rw [dif_pos inside, if_pos inside]
    rfl
  · rw [dif_neg inside, if_neg inside, texts, List.flatMap_map]
    rfl

theorem encodeURIComponent_eq (m : String) :
    encodeURIComponent m = texts (m.toList.flatMap charTokens) := by
  rw [encodeURIComponent, texts, List.flatMap_assoc]
  congr 1
  funext c
  exact (texts_charTokens c).symm

/-- The escapes the handler undoes. -/
def undone : List Escape :=
  [⟨'2', '0', ' ', by decide⟩, ⟨'2', '7', '\x27', by decide⟩, ⟨'2', 'C', ',', by decide⟩,
    ⟨'2', 'F', '/', by decide⟩, ⟨'3', 'A', ':', by decide⟩, ⟨'3', 'D', '=', by decide⟩]

/-- What becomes of a token in the whole chain. -/
def undoAll (token : Token) : Token := undone.foldl (fun token e => e.undo token) token

theorem decoded_texts (tokens : List Token) : decoded (texts tokens) = texts (tokens.map undoAll) := by
  have same : escapes = undone.map fun e => (e.pattern, [e.char]) := by decide
  have chain := foldl_substitute_texts undone tokens
  rw [decoded, same, List.foldl_map]
  exact chain

/-- What becomes of a character of the rule. -/
def received (c : Char) : Str := texts ((charTokens c).map undoAll)

theorem decoded_encodeURIComponent (m : String) :
    decoded (encodeURIComponent m) = m.toList.flatMap received := by
  rw [encodeURIComponent_eq, decoded_texts, List.map_flatMap, texts, List.flatMap_assoc]
  rfl

/-! ### One character -/

/-- The characters that arrive as they were: those that are not escaped, and those whose
escape is undone. -/
def Arrives (c : Char) : Prop := c ∈ unescaped ∨ c ∈ " ,/:=".toList

instance (c : Char) : Decidable (Arrives c) := inferInstanceAs (Decidable (_ ∨ _))

theorem received_of_arrives {c : Char} (arrives : Arrives c) : received c = charBytes c := by
  rcases arrives with plain | escaped
  · have kept : ∀ es : List Escape, ∀ visible, es.foldl (fun token e => e.undo token)
        (Token.plain c visible) = .plain c visible := by
      intro es visible
      induction es with
      | nil => rfl
      | cons e es ih => exact ih
    have bytes : charBytes c = [c] :=
      forall_of_all (P := fun c => charBytes c = [c]) (by decide) c plain
    rw [received, charTokens, dif_pos plain, List.map_singleton, undoAll, kept, bytes]
    rfl
  · exact forall_of_all (P := fun c => received c = charBytes c) (by decide) c escaped

/-- The bytes whose escapes are undone. -/
def undoneBytes : List Nat := [0x20, 0x27, 0x2C, 0x2F, 0x3A, 0x3D]

theorem undoAll_byteToken (b : UInt8) :
    1 ≤ (undoAll (byteToken b)).text.length ∧
      ((undoAll (byteToken b)).text.length = 1 → b.toNat ∈ undoneBytes) := by
  have all : ∀ n < 256, 1 ≤ (undoAll (byteToken (UInt8.ofNat n))).text.length ∧
      ((undoAll (byteToken (UInt8.ofNat n))).text.length = 1 → n ∈ undoneBytes) := by
    decide +kernel
  have here := all b.toNat b.toNat_lt
  rwa [UInt8.ofNat_toNat] at here

theorem length_texts_bytes (bytes : List UInt8) :
    bytes.length ≤ (texts ((bytes.map byteToken).map undoAll)).length ∧
      ((texts ((bytes.map byteToken).map undoAll)).length = bytes.length →
        ∀ b ∈ bytes, b.toNat ∈ undoneBytes) := by
  induction bytes with
  | nil => simp [texts]
  | cons b bytes ih =>
      have here := undoAll_byteToken b
      simp only [List.map_cons, texts_cons, List.length_append, List.length_cons]
      constructor
      · omega
      · intro same
        rw [List.forall_mem_cons]
        exact ⟨here.2 (by omega), ih.2 (by omega)⟩

/-- A character outside ASCII has a byte outside ASCII. -/
theorem exists_high_byte {c : Char} (high : 127 < c.val.toNat) :
    ∃ b ∈ String.utf8EncodeChar c, 128 ≤ b.toNat := by
  have last : UInt8.ofNat (c.val.toNat % 64 + 128) ∈ String.utf8EncodeChar c := by
    unfold String.utf8EncodeChar
    simp only [Nat.not_le.mpr high, ↓reduceIte]
    split
    · simp
    · split <;> simp
  refine ⟨_, last, ?_⟩
  rw [UInt8.toNat_ofNat']
  omega

theorem charBytes_length (c : Char) : (charBytes c).length = (String.utf8EncodeChar c).length :=
  List.length_map _

theorem charBytes_length_le (c : Char) : (charBytes c).length ≤ (received c).length := by
  by_cases arrives : Arrives c
  · rw [received_of_arrives arrives]
  · have escaped : c ∉ unescaped := fun inside => arrives (.inl inside)
    rw [charBytes_length, received, charTokens, dif_neg escaped]
    exact (length_texts_bytes _).1

/-- No other character arrives. -/
theorem arrives_of_received {c : Char} (same : received c = charBytes c) : Arrives c := by
  by_contra lost
  have escaped : c ∉ unescaped := fun inside => lost (.inl inside)
  have lengths := congrArg List.length same
  rw [charBytes_length, received, charTokens, dif_neg escaped] at lengths
  have bytes := (length_texts_bytes _).2 lengths
  by_cases high : 127 < c.val.toNat
  · obtain ⟨b, inside, large⟩ := exists_high_byte high
    have small := (by decide : ∀ n ∈ undoneBytes, n < 128) _ (bytes b inside)
    omega
  · have one : String.utf8EncodeChar c = [UInt8.ofNat c.val.toNat] := if_pos (Nat.not_lt.mp high)
    have code := bytes (UInt8.ofNat c.val.toNat) (by rw [one]; exact List.mem_singleton_self _)
    rw [UInt8.toNat_ofNat', Nat.mod_eq_of_lt (by omega)] at code
    have arrives : Arrives (Char.ofNat c.val.toNat) :=
      (by decide : ∀ n ∈ undoneBytes, Arrives (Char.ofNat n)) _ code
    exact lost ((Char.ofNat_toNat c) ▸ arrives)

/-! ### The whole rule -/

/-- Where no part of the first row is shorter than that of the second, the rows are equal
only part by part. -/
theorem flatMap_eq_iff {α β : Type} {f g : α → List β} (longer : ∀ x, (g x).length ≤ (f x).length)
    (xs : List α) : xs.flatMap f = xs.flatMap g ↔ ∀ x ∈ xs, f x = g x := by
  have total : ∀ xs : List α, (xs.flatMap g).length ≤ (xs.flatMap f).length := by
    intro xs
    induction xs with
    | nil => exact Nat.le_refl _
    | cons x xs ih =>
        have here := longer x
        rw [List.flatMap_cons, List.flatMap_cons, List.length_append, List.length_append]
        omega
  induction xs with
  | nil => simp
  | cons x xs ih =>
      have others : xs.flatMap f = xs.flatMap g ↔ ∀ x ∈ xs, f x = g x := ih
      rw [List.flatMap_cons, List.flatMap_cons, List.forall_mem_cons, ← others]
      constructor
      · intro same
        have lengths := congrArg List.length same
        rw [List.length_append, List.length_append] at lengths
        have here := longer x
        have behind := total xs
        exact List.append_inj same (by omega)
      · intro both
        rw [both.1, both.2]

/-- The handler passes the rule the page was showing to the bus, byte for byte. -/
def RuleArrives (m : String) : Prop :=
  ∀ {Slot : Type} (addMatch : Str → Except Str Slot), ∃ opened,
    openHandler addMatch (matchQuery m) = .ok opened ∧ opened.rule? = some (utf8 m)

/-- It does so exactly when the rule is made of unreserved characters, spaces, commas,
slashes, colons and equals signs. -/
theorem ruleArrives_iff (m : String) : RuleArrives m ↔ ∀ c ∈ m.toList, Arrives c := by
  have start : "match=".toList <+: matchQuery m := ⟨_, rfl⟩
  have rest : (matchQuery m).drop 6 = encodeURIComponent m := rfl
  have parts : decoded (encodeURIComponent m) = utf8 m ↔ ∀ c ∈ m.toList, Arrives c := by
    rw [decoded_encodeURIComponent, utf8, flatMap_eq_iff charBytes_length_le]
    constructor
    · intro each c inside
      exact arrives_of_received (each c inside)
    · intro each c inside
      exact received_of_arrives (each c inside)
  rw [← parts]
  obtain ⟨letter, long⟩ := letter_of_prefix start
  constructor
  · intro arrives
    have addMatch : Str → Except Str Unit := fun _ => .ok ()
    obtain ⟨opened, passed, rule⟩ := arrives addMatch
    obtain ⟨opened', passed', rule'⟩ := openHandler_passed addMatch letter long
    rw [passed] at passed'
    rw [← Except.ok.inj passed', rule, rest] at rule'
    exact (Option.some.inj rule').symm
  · intro same Slot addMatch
    have passed := openHandler_passed addMatch letter long
    rwa [rest, same] at passed

/-- A plus sign stays escaped. -/
theorem plus_sign_lost : ¬ ∀ m, RuleArrives m := by
  intro always
  have arrives := (ruleArrives_iff "arg0='1+1'").mp (always _)
  exact absurd (arrives '+' (by decide)) (by decide)

end Dbus2Http.SignalSocket

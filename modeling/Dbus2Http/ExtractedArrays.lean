import Dbus2Http.ExtractedValues

set_option autoImplicit false

namespace Dbus2Http.Message2Json

open Cxx (Str Run Settles throwExn)
open Dbus (IntTy Basic Ty Value Cursor MessageReader LawfulReader)
open SignatureUtils (Splits cStr_text substrFrom_array)

/-! ### Elements that are read alone -/

/-- The element is read on its own, whole. -/
def ReadsAlone (env : Env) (elem : Ty) (item : Value) (json : Json) : Prop :=
  Extracts env (Cursor.start [item]) elem.text json (Cursor.start [])

theorem readsAlone_scalar (env : Env) {v : Value} {b : Basic} (type : v.typeOf = .basic b)
    (scalar : Scalar b) : ReadsAlone env (.basic b) v (ofBasic v) := by
  have reads := reads_scalar env type scalar
  rwa [Reads, List.map_singleton, Ty.texts_singleton, type] at reads

theorem reads_each_alone {env : Env} {elem : Ty} {items : List Value} {js : List Json}
    (types : ∀ item ∈ items, item.typeOf = elem)
    (each : List.Forall₂ (ReadsAlone env elem) items js) :
    List.Forall₂ (fun v json => Reads env [v] json) items js := by
  induction each with
  | nil => exact .nil
  | @cons v json items js first others ih =>
      refine .cons ?_ (ih fun item inside => types item (by simp [inside]))
      rw [Reads, List.map_singleton, Ty.texts_singleton, types v (by simp)]
      exact first

/-! ### Arrays that are not read -/

/-- Where the element type cannot be read past the last element, the loop fails. -/
theorem extractPlainArray_stuck {env : Env} {fuel : Nat} {elem : Ty} {items : List Value}
    {js : List Json} (each : List.Forall₂ (fun v json => ReadsAt env fuel [v] json) items js)
    (types : ∀ item ∈ items, item.typeOf = elem) (enough : items.length < fuel)
    (stuck : ∀ (c : Cursor) (result : Json × Cursor), c.top.rest = [] → c.top.inArray = true →
      extractMessage env fuel c elem.text ≠ .ok result)
    {c : Cursor} {rest : List Value} (good : c.good = true)
    (ahead : c.top.rest = .array elem items :: rest) (result : Json × Cursor) :
    extractPlainArray fuel (extractMessage env fuel) c (Ty.array elem).text ≠ .ok result := by
  intro done
  have entered := enterContainer_cursor ahead (cStr_text elem)
    (show Value.frame? .array _ _ = _ from if_pos rfl)
  have inside : (c.inside ⟨true, items⟩ rest).good = true := good
  obtain ⟨more, same⟩ : ∃ more, fuel = items.length + (more + 1) :=
    ⟨fuel - items.length - 1, by omega⟩
  have looped := extractElements_items each types inside (List.append_nil items).symm (more + 1) []
  rw [← same] at looped
  rw [extractPlainArray, substrFrom_array, Cxx.bind_ok, entered, Cxx.bind_ok, looped,
    extractElements] at done
  obtain ⟨_, ran, _⟩ := Cxx.bind_eq_ok.mp done
  obtain ⟨last, ran, _⟩ := Cxx.bind_eq_ok.mp ran
  exact stuck _ last rfl rfl ran

theorem extractVariant_end {env : Env} (fuel : Nat) {c : Cursor} (ended : c.top.rest = [])
    (result : Json × Cursor) : extractMessage env (fuel + 1) c Ty.variant.text ≠ .ok result := by
  have splits : Splits .variant := trivial
  have peek : MessageReader.peekType c = ('\x00', none) := by
    change c.peekType = _
    rw [Cursor.peekType, ended]
  rw [extractMessage_piece env fuel c splits]
  change extractVariant _ c ≠ _
  simp [extractVariant, peek]

/-- No descriptor is read where none was received. -/
theorem readDescriptor_none (env : Env) (fuel : Nat) :
    readDescriptor env (descriptor none) (fuel + 1) 0 [] =
      throwExn .runtimeError ("read() failed: ".toList ++ "Bad file descriptor".toList) := by
  have none : descriptor none = -1 := rfl
  rw [readDescriptor, none, env.noDescriptor]

theorem extractUnixFd_end {env : Env} (fuel : Nat) {c : Cursor} (ended : c.top.rest = [])
    (inArray : c.top.inArray = true) (result : Json × Cursor) :
    extractMessage env (fuel + 1) c (Ty.basic .unixFd).text ≠ .ok result := by
  have splits : Splits (.basic .unixFd) := ⟨by decide, by decide⟩
  have read : MessageReader.read c .unixFd = some (none, { c with good := false }) :=
    Cursor.read_eq_some.mpr (.inr ⟨ended, inArray, rfl, rfl⟩)
  rw [extractMessage_piece env fuel c splits]
  change extractUnixFd env c ≠ _
  rw [extractUnixFd, read, Cxx.orThrow_some, Cxx.bind_ok]
  simp only [readDescriptor_none, Cxx.bind_throwExn]
  exact Cxx.throwExn_ne_ok _ _ _

theorem extractMessage_refused {M : Type} [MessageReader M] {env : Env} (fuel : Nat) (m : M) {b : Basic}
    (refused : b = .objectPath ∨ b = .signature) (result : Json × M) :
    extractMessage env (fuel + 1) m (Ty.basic b).text ≠ .ok result := by
  rcases refused with same | same
  · subst same
    intro done
    obtain ⟨_, split, _⟩ := Cxx.bind_eq_ok.mp done
    contradiction
  · subst same
    intro done
    obtain ⟨_, split, _⟩ := Cxx.bind_eq_ok.mp done
    contradiction

/-- The splitter cuts an array of arrays after its second code, and no array has the
contents `a`. -/
theorem extractMessage_nested {env : Env} (fuel : Nat) {c : Cursor} {inner : Ty} {items rest : List Value}
    (ahead : c.top.rest = .array (.array inner) items :: rest) (result : Json × Cursor) :
    extractMessage env (fuel + 2) c (Ty.array (.array inner)).text ≠ .ok result := by
  intro done
  obtain ⟨pieces, split, done⟩ := Cxx.bind_eq_ok.mp done
  have nonempty : (Ty.array (.array inner)).text ≠ [] := Ty.text_ne_nil _
  have cut : SignatureUtils.splitPiece (Ty.array (.array inner)).text = .ok (['a', 'a'], inner.text) :=
    SignatureUtils.splitPiece_array (by decide) (by decide) inner.text
  rw [SignatureUtils.split_eq nonempty, cut, Cxx.bind_ok] at split
  obtain ⟨others, splitOthers, same⟩ := Cxx.bind_eq_ok.mp split
  cases same
  have several : 1 < (['a', 'a'] :: others).length := by
    cases others with
    | nil =>
        have whole := (SignatureUtils.split_pieces splitOthers).1
        exact absurd whole.symm (Ty.text_ne_nil inner)
    | cons => simp
  rw [if_pos several, List.foldlM_cons] at done
  obtain ⟨_, folded, _⟩ := Cxx.bind_eq_ok.mp done
  obtain ⟨_, first, _⟩ := Cxx.bind_eq_ok.mp folded
  obtain ⟨read, first, _⟩ := Cxx.bind_eq_ok.mp first
  have called : extractMessage env (fuel + 1) c ['a', 'a'] =
      extractPlainArray fuel (extractMessage env fuel) c ['a', 'a'] := rfl
  rw [called] at first
  obtain ⟨_, cutElement, first⟩ := Cxx.bind_eq_ok.mp first
  obtain ⟨_, entered, _⟩ := Cxx.bind_eq_ok.mp first
  cases cutElement
  rcases Cursor.enterContainer_eq_some.mp (Cxx.orThrow_eq_ok.mp entered) with
    ⟨v, rest', frame, ahead', shape, _⟩ | ⟨ended, _⟩
  · rw [ahead] at ahead'
    cases ahead'
    have short : (Ty.array inner).text ≠ ['a'] := by
      simp [Ty.text_ne_nil]
    rw [Value.frame?] at shape
    split at shape
    · rename_i text
      exact short text
    · contradiction
  · rw [ahead] at ended
    contradiction

/-- With binary support an array of bytes is a binary and not an array. -/
theorem extractMessage_bytes {env : Env} (binary : env.config.binarySupport = true) (fuel : Nat)
    (c : Cursor) (js : List Json) (c' : Cursor) :
    extractMessage env (fuel + 2) c (Ty.array (.basic (.int .byte))).text ≠ .ok (.array js, c') := by
  intro done
  have splits : Splits (.array (.basic (.int .byte))) := trivial
  have switched : extractMessage env (fuel + 2) c (Ty.array (.basic (.int .byte))).text =
      extractByteArray env (fuel + 1) c := by
    rw [extractMessage_piece env _ c splits]
    change extractArray env (fuel + 1) _ c _ = _
    rw [extractArray, if_neg (by decide), if_neg (by decide), if_pos ⟨rfl, binary⟩]
  rw [switched] at done
  obtain ⟨_, _, done⟩ := Cxx.bind_eq_ok.mp done
  obtain ⟨_, _, done⟩ := Cxx.bind_eq_ok.mp done
  obtain ⟨_, _, done⟩ := Cxx.bind_eq_ok.mp done
  cases done

/-- What is read as a JSON array is an array of a type that can be. -/
theorem ArrayRead.of_readsAt {env : Env} {elem : Ty} (single : elem.Single) {items : List Value}
    {js : List Json} (types : ∀ item ∈ items, item.typeOf = elem)
    (each : List.Forall₂ (fun v json => Reads env [v] json) items js) {c c' : Cursor}
    {rest : List Value} (good : c.good = true) (ahead : c.top.rest = .array elem items :: rest)
    (extracts : Extracts env c (Ty.array elem).text (.array js) c') : ArrayRead env elem := by
  obtain ⟨enough, ran⟩ := extracts
  obtain ⟨enough', readsAt⟩ := reads_each each
  -- one fuel at which the elements are read and the call on the array returns
  obtain ⟨fuel, many, long, late⟩ : ∃ fuel, enough' ≤ fuel + 1 ∧ items.length < fuel + 1 ∧
      enough ≤ fuel + 2 := ⟨max enough (max enough' items.length), by omega, by omega, by omega⟩
  have done : extractMessage env (fuel + 2) c (Ty.array elem).text = .ok (.array js, c') :=
    ran (fuel + 2) late
  have stuck := extractPlainArray_stuck (readsAt (fuel + 1) many) types long
  have plain : Splits (.array elem) → elem.text.head? ≠ some '{' → elem.text.head? ≠ some '(' →
      ¬ (elem = .basic (.int .byte) ∧ env.config.binarySupport = true) →
      extractPlainArray (fuel + 1) (extractMessage env (fuel + 1)) c (Ty.array elem).text =
        .ok (.array js, c') := by
    intro splits notDict notStruct notBytes
    rw [← extractPiece_plainArray env notDict notStruct notBytes, ← extractMessage_piece env _ c splits]
    exact done
  cases elem with
  | basic b =>
      have codes := b.code_plain
      have splits : Splits (.array (.basic b)) := trivial
      by_cases bytes : b = .int .byte ∧ env.config.binarySupport = true
      · obtain ⟨rfl, binary⟩ := bytes
        exact absurd done (extractMessage_bytes binary fuel c js c')
      · refine ⟨?_, bytes⟩
        have ran := plain splits (by simpa using codes.2.2.2.2.1) (by simpa using codes.2.2.1)
          (by simpa using bytes)
        cases b with
        | unixFd =>
            exact absurd ran (stuck (fun c result ended inArray =>
              extractUnixFd_end fuel ended inArray result) good ahead _)
        | objectPath =>
            exact absurd ran (stuck (fun c result _ _ => extractMessage_refused fuel c (.inl rfl) result)
              good ahead _)
        | signature =>
            exact absurd ran (stuck (fun c result _ _ => extractMessage_refused fuel c (.inr rfl) result)
              good ahead _)
        | _ => trivial
  | variant =>
      have ran := plain trivial (by decide) (by decide) (by simp)
      exact stuck (fun _ result ended _ => extractVariant_end fuel ended result) good ahead _ ran
  | array inner => exact extractMessage_nested fuel ahead _ done
  | struct fields => trivial
  | entry key value => simp at single

end Dbus2Http.Message2Json

import Dbus2Http.CodecRoundTrip
import Dbus2Http.NumericStrings

set_option autoImplicit false

namespace Dbus2Http

open Cxx (Str Throws)
open Dbus (IntTy Basic Ty Value Draft MessageWriter)
open Message2Json (Env Scalar Reads EntryPart ofBasic ofInt reads_scalar reads_dict)
open Json2Message (fillMessage fillDictEntry append openContainer closeContainer)

/-- A member name given back for the key of a dict entry is appended as the key `k`. -/
structure KeyReturns (key : Basic) (k : Value) (name : Str) : Prop where
  appended : ∀ {M : Type} [MessageWriter M] (message : M),
    fillMessage message [key.code] (.string name) = append message k
  entry : ∀ {M : Type} [MessageWriter M] (message : M) (valueSig : Str) (value : Json),
    fillDictEntry fillMessage (key.code :: valueSig) message (name, value) =
      openContainer .dictEntry message (key.code :: valueSig) >>= fun message =>
        append message k >>= fun message =>
          fillMessage message valueSig value >>= closeContainer .dictEntry

theorem keyReturns_of_appended {key : Basic} {k : Value} {name : Str}
    (appended : ∀ {M : Type} [MessageWriter M] (message : M),
      fillMessage message [key.code] (.string name) = append message k) : KeyReturns key k name where
  appended := appended
  entry := by
    intro M _ message valueSig value
    rw [Json2Message.fillDictEntry_key]
    simp only [appended]

/-- The text of an integer is taken for the integer. -/
theorem taken_toDecimal {t : IntTy} (n : t.Val) :
    Json2Message.Taken t (Cxx.toDecimal (IntTy.int64.wrap n.val).val) (IntTy.int64.wrap n.val).val :=
  ⟨(Cxx.numeral_toDecimal _).leading, (IntTy.int64.wrap n.val).property,
    Json2Message.passes_int64 n⟩

theorem keyReturns_int {t : IntTy} (n : t.Val) :
    KeyReturns (.int t) (.int t n) (ofInt t n).keyText := by
  apply keyReturns_of_appended
  intro M _ message
  have name : (ofInt t n).keyText = Cxx.toDecimal (IntTy.int64.wrap n.val).val :=
    keyText_of_asInteger? (asInteger?_ofInt t n)
  have filled := Json2Message.fillMessage_taken message (taken_toDecimal n)
  rw [Json2Message.wrap_int64] at filled
  rw [name]
  exact filled

theorem keyReturns_string (s : Dbus.ZeroFree) : KeyReturns .string (.string s) s.val := by
  apply keyReturns_of_appended
  intro M _ message
  have splits : SignatureUtils.Splits (.basic .string) := ⟨Basic.noConfusion, Basic.noConfusion⟩
  have filled := Json2Message.fillMessage_one message splits (.string s.val)
  rw [Ty.text_basic] at filled
  rw [filled]
  exact congrArg (fun s => append message (.string s)) (Dbus.zeroFree_val s)

/-- No string is taken for a boolean or for a double. -/
theorem throws_of_string {M : Type} [MessageWriter M] (message : M) {key : Basic}
    (strict : key = .bool ∨ key = .double) (name : Str) :
    Throws (fillMessage message [key.code] (.string name)) := by
  rcases strict with rfl | rfl
  · have splits : SignatureUtils.Splits (.basic .bool) := ⟨Basic.noConfusion, Basic.noConfusion⟩
    exact ⟨_, Json2Message.fillMessage_one message splits (.string name)⟩
  · have splits : SignatureUtils.Splits (.basic .double) := ⟨Basic.noConfusion, Basic.noConfusion⟩
    exact ⟨_, Json2Message.fillMessage_one message splits (.string name)⟩

/-- An empty message takes a basic value. -/
theorem append_start {k : Value} {key : Basic} (type : k.typeOf = .basic key) :
    ∃ d, append Draft.empty k = .ok d := by
  have single : ∀ v ∈ [k], v.typeOf.Single := by
    rw [List.forall_mem_singleton, type]
    exact Ty.single_basic key
  have put := (Draft.putAll_any (d := Draft.empty) rfl).mpr ⟨single, rfl⟩
  rw [Draft.putAll_singleton] at put
  exact ⟨_, Json2Message.append_eq_ok.mpr put⟩

/-- The name a key gets in the JSON object is read back as the key, unless it is a boolean
or a double. -/
theorem keyReturns_iff {key : Basic} (handled : Scalar key) {k : Value}
    (type : k.typeOf = .basic key) :
    KeyReturns key k (ofBasic k).keyText ↔ key ≠ .bool ∧ key ≠ .double := by
  constructor
  · intro returns
    rw [← not_or]
    intro strict
    obtain ⟨d, appended⟩ := append_start type
    rw [← returns.appended Draft.empty] at appended
    exact (throws_of_string Draft.empty strict _).ne_ok d appended
  · rintro ⟨notBool, notDouble⟩
    cases k with
    | bool b =>
        cases type
        exact absurd rfl notBool
    | int t n =>
        cases type
        exact keyReturns_int n
    | double d =>
        cases type
        exact absurd rfl notDouble
    | string s =>
        cases type
        exact keyReturns_string s
    | objectPath s =>
        cases type
        exact handled.elim
    | signature s =>
        cases type
        exact handled.elim
    | unixFd fd =>
        cases type
        exact handled.elim
    | _ => simp [Value.typeOf] at type

/-- The members that are made of the entries of a dict carry names that are taken for the
keys again exactly where the key type is neither a boolean nor a double. -/
theorem dictKeys_return_iff {env : Env} {key : Basic} {t : Ty} {parts : List EntryPart}
    (handled : Scalar key) (types : ∀ p ∈ parts, p.key.typeOf = .basic key ∧ p.value.typeOf = t)
    (keys : ∀ p ∈ parts, Reads env [p.key] p.keyJson)
    (values : ∀ p ∈ parts, Reads env [p.value] p.valueJson) :
    Reads env [.array (.entry (.basic key) t) (parts.map EntryPart.entry)]
        (Json.ofAssignments (parts.map EntryPart.member)) ∧
      ∀ p ∈ parts, (KeyReturns key p.key p.member.1 ↔ key ≠ .bool ∧ key ≠ .double) := by
  refine ⟨reads_dict types keys values, ?_⟩
  intro p inside
  have type := (types p inside).1
  have read : p.keyJson = ofBasic p.key := ((keys p inside).unique (reads_scalar env type handled)).1
  rw [EntryPart.member, read]
  exact keyReturns_iff handled type

/-- The largest key of `a{ts}` is read as `-1`, which stands for it again. -/
theorem largest_key_returns :
    KeyReturns (.int .uint64) (.int .uint64 ⟨2 ^ 64 - 1, by decide⟩) "-1".toList := by
  let largest : Value := .int .uint64 ⟨2 ^ 64 - 1, by decide⟩
  let part : EntryPart := ⟨largest, .bool true, ofBasic largest, .bool true⟩
  have types : ∀ p ∈ [part], p.key.typeOf = .basic (.int .uint64) ∧ p.value.typeOf = .basic .bool := by
    rw [List.forall_mem_singleton]
    exact ⟨rfl, rfl⟩
  have keys : ∀ p ∈ [part], Reads Message2Json.bareEnv [p.key] p.keyJson := by
    rw [List.forall_mem_singleton]
    exact reads_scalar Message2Json.bareEnv (v := largest) rfl trivial
  have values : ∀ p ∈ [part], Reads Message2Json.bareEnv [p.value] p.valueJson := by
    rw [List.forall_mem_singleton]
    exact reads_scalar Message2Json.bareEnv (v := .bool true) rfl trivial
  have handled : Scalar (.int .uint64) := trivial
  have facts := dictKeys_return_iff handled types keys values
  exact (facts.2 part List.mem_cons_self).mpr ⟨Basic.noConfusion, Basic.noConfusion⟩

/-- The key `true` of `a{bb}` is read as `1`, which is refused for a boolean. -/
theorem boolean_key_refused :
    Reads Message2Json.bareEnv
        [.array (.entry (.basic .bool) (.basic .bool)) [.entry (.bool true) (.bool false)]]
        (.object [("1".toList, .bool false)]) ∧
      ¬ KeyReturns .bool (.bool true) "1".toList := by
  let part : EntryPart := ⟨.bool true, .bool false, .bool true, .bool false⟩
  have handled : Scalar .bool := trivial
  constructor
  · have types : ∀ p ∈ [part], p.key.typeOf = .basic .bool ∧ p.value.typeOf = .basic .bool := by
      rw [List.forall_mem_singleton]
      exact ⟨rfl, rfl⟩
    have keys : ∀ p ∈ [part], Reads Message2Json.bareEnv [p.key] p.keyJson := by
      rw [List.forall_mem_singleton]
      exact reads_scalar Message2Json.bareEnv (v := .bool true) rfl handled
    have values : ∀ p ∈ [part], Reads Message2Json.bareEnv [p.value] p.valueJson := by
      rw [List.forall_mem_singleton]
      exact reads_scalar Message2Json.bareEnv (v := .bool false) rfl handled
    exact reads_dict types keys values
  · intro returns
    have type : (Value.bool true).typeOf = .basic .bool := rfl
    exact ((keyReturns_iff handled type).mp returns).1 rfl

end Dbus2Http

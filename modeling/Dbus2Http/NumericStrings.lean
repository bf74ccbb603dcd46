import Dbus2Http.FilledValues

set_option autoImplicit false

namespace Dbus2Http.Json2Message

open Cxx (Str Run Throws Numeral leadingInteger?)
open Dbus (IntTy Basic Ty Value Draft MessageWriter)

/-! ### A string given for an integer -/

section

variable {M : Type} [MessageWriter M]

/-- A string given for an integer type is read as an integer and checked against the type. -/
theorem fillMessage_numeric (message : M) (t : IntTy) (s : Str) :
    fillMessage message [t.code] (.string s) = appendIntegerFromJson t message (.string s) := by
  have splits : SignatureUtils.Splits (.basic (.int t)) := ⟨Basic.noConfusion, Basic.noConfusion⟩
  exact (fillMessage_one message splits (.string s)).trans (fillPiece_int _ message t _)

/-- What the code takes for a type, and appends. -/
def Taken (t : IntTy) (s : Str) (n : Int) : Prop :=
  leadingInteger? s = some n ∧ IntTy.int64.Holds n ∧ (t = .uint64 ∨ t.Holds n)

theorem fillMessage_taken (message : M) {t : IntTy} {s : Str} {n : Int} (taken : Taken t s n) :
    fillMessage message [t.code] (.string s) = append message (.int t (t.wrap n)) := by
  obtain ⟨leading, inside, checked⟩ := taken
  have read : Cxx.stoll s = .ok n := Cxx.stoll_ok leading inside
  rw [fillMessage_numeric]
  simp only [appendIntegerFromJson, read, Cxx.bind_ok, (compared_holds t n).mpr checked, ↓reduceIte]

theorem throws_bind {α β : Type} {first : Run α} {next : α → Run β} (throws : Throws first) :
    Throws (first >>= next) := by
  obtain ⟨exn, rfl⟩ := throws
  exact ⟨exn, rfl⟩

/-- What the code does not take makes it throw. -/
theorem fillMessage_refused (message : M) {t : IntTy} {s : Str} (refused : ∀ n, ¬ Taken t s n) :
    Throws (fillMessage message [t.code] (.string s)) := by
  rw [fillMessage_numeric]
  unfold appendIntegerFromJson
  cases leading : leadingInteger? s with
  | none => exact throws_bind (Cxx.stoll_none leading)
  | some n =>
      by_cases inside : IntTy.int64.Holds n
      · have unchecked : ¬ t.Holds (comparedWithLimits t n) := by
          rw [compared_holds]
          intro checked
          exact refused n ⟨leading, inside, checked⟩
        have read : Cxx.stoll s = .ok n := Cxx.stoll_ok leading inside
        simp only [read, Cxx.bind_ok, unchecked, ↓reduceIte]
        exact ⟨_, rfl⟩
      · exact throws_bind (Cxx.stoll_outside leading inside)

/-- The key of a dict entry is given to the filler as a string. -/
theorem fillDictEntry_key (message : M) (key : Basic) (valueSig name : Str) (value : Json) :
    fillDictEntry fillMessage (key.code :: valueSig) message (name, value) =
      openContainer .dictEntry message (key.code :: valueSig) >>= fun message =>
        fillMessage message [key.code] (.string name) >>= fun message =>
          fillMessage message valueSig value >>= closeContainer .dictEntry := by
  unfold fillDictEntry
  simp only [SignatureUtils.substr_key, SignatureUtils.substrFrom_key, Cxx.bind_ok]

end

/-! ### Exact conversion -/

/-- A string is converted exactly, as a value and as the key of a dict entry: the numeral of
an integer of the type is appended as that integer, and every other string is refused. -/
structure ConvertsExactly (t : IntTy) (s : Str) : Prop where
  value : ∀ {M : Type} [MessageWriter M] (message : M) (n : t.Val), Numeral s n.val →
    fillMessage message [t.code] (.string s) = append message (.int t n)
  valueRefused : ∀ {M : Type} [MessageWriter M] (message : M),
    (∀ n : t.Val, ¬ Numeral s n.val) → Throws (fillMessage message [t.code] (.string s))
  key : ∀ {M : Type} [MessageWriter M] (message : M) (n : t.Val) (valueSig : Str) (value : Json),
    Numeral s n.val → fillDictEntry fillMessage (t.code :: valueSig) message (s, value) =
      openContainer .dictEntry message (t.code :: valueSig) >>= fun message =>
        append message (.int t n) >>= fun message =>
          fillMessage message valueSig value >>= closeContainer .dictEntry
  keyRefused : ∀ {M : Type} [MessageWriter M] (message : M) (valueSig : Str) (value : Json),
    (∀ n : t.Val, ¬ Numeral s n.val) →
      Throws (fillDictEntry fillMessage (t.code :: valueSig) message (s, value))

/-- The strings on which the conversion goes right: a numeral given for 64 bits without sign
is that of an integer both 64-bit types have, or of one outside both of them; and a string
that is no numeral begins with no integer that the type (64 bits with sign, for 64 bits
without) could hold. -/
structure ReadExactly (t : IntTy) (s : Str) : Prop where
  numeral : t = .uint64 → ∀ n, Numeral s n → (IntTy.int64.Holds n ↔ IntTy.uint64.Holds n)
  other : (∀ n, ¬ Numeral s n) → ∀ n, leadingInteger? s = some n →
    ¬ (if t = .uint64 then IntTy.int64 else t).Holds n

theorem taken_iff {t : IntTy} {s : Str} {n : Int} :
    Taken t s n ↔ leadingInteger? s = some n ∧ (if t = .uint64 then IntTy.int64 else t).Holds n := by
  unfold Taken
  by_cases wide : t = .uint64
  · simp only [wide, ↓reduceIte, true_or, and_true]
  · simp only [wide, ↓reduceIte, false_or]
    constructor
    · intro taken
      exact ⟨taken.1, taken.2.2⟩
    · intro taken
      exact ⟨taken.1, holds_int64 wide taken.2, taken.2⟩

theorem ReadExactly.taken {t : IntTy} {s : Str} (exact : ReadExactly t s) {n : t.Val}
    (numeral : Numeral s n.val) : Taken t s n.val := by
  rw [taken_iff]
  refine ⟨numeral.leading, ?_⟩
  by_cases wide : t = .uint64
  · subst wide
    exact (exact.numeral rfl _ numeral).mpr n.property
  · rw [if_neg wide]
    exact n.property

theorem ReadExactly.refused {t : IntTy} {s : Str} (exact : ReadExactly t s)
    (foreign : ∀ n : t.Val, ¬ Numeral s n.val) (n : Int) : ¬ Taken t s n := by
  rw [taken_iff]
  rintro ⟨leading, inside⟩
  by_cases numeral : ∃ m, Numeral s m
  · obtain ⟨m, numeral⟩ := numeral
    obtain rfl : m = n := Option.some.inj (numeral.leading.symm.trans leading)
    by_cases wide : t = .uint64
    · subst wide
      exact foreign ⟨m, (exact.numeral rfl m numeral).mp inside⟩ numeral
    · rw [if_neg wide] at inside
      exact foreign ⟨m, inside⟩ numeral
  · exact exact.other (not_exists.mp numeral) n leading inside

theorem ReadExactly.converts {t : IntTy} {s : Str} (exact : ReadExactly t s) :
    ConvertsExactly t s where
  value := by
    intro M _ message n numeral
    rw [fillMessage_taken message (exact.taken numeral), IntTy.wrap_val]
  valueRefused := by
    intro M _ message foreign
    exact fillMessage_refused message (exact.refused foreign)
  key := by
    intro M _ message n valueSig value numeral
    have appended : ∀ message : M, fillMessage message [t.code] (.string s) =
        append message (.int t n) := by
      intro message
      rw [fillMessage_taken message (exact.taken numeral), IntTy.wrap_val]
    refine (fillDictEntry_key message (.int t) valueSig s value).trans ?_
    simp only [Basic.code, appended]
  keyRefused := by
    intro M _ message valueSig value foreign
    have entry := fillDictEntry_key message (.int t) valueSig s value
    rw [show (Basic.int t).code = t.code from rfl] at entry
    rw [entry]
    cases opened : openContainer .dictEntry message (t.code :: valueSig) with
    | error fault =>
        unfold openContainer Cxx.orThrow at opened
        split at opened
        · contradiction
        · cases opened
          exact ⟨_, rfl⟩
    | ok inner =>
        rw [Cxx.bind_ok]
        exact throws_bind (fillMessage_refused inner (exact.refused foreign))

/-- An empty message takes an integer. -/
theorem append_empty (t : IntTy) (n : t.Val) : ∃ d, append Draft.empty (.int t n) = .ok d :=
  ⟨_, append_eq_ok.mpr rfl⟩

theorem ConvertsExactly.reads {t : IntTy} {s : Str} (converts : ConvertsExactly t s) :
    ReadExactly t s where
  numeral := by
    rintro rfl n numeral
    constructor
    · intro inside
      by_contra outside
      have foreign : ∀ m : IntTy.uint64.Val, ¬ Numeral s m.val := by
        intro m other
        rw [numeral.unique other] at outside
        exact outside m.property
      obtain ⟨d, appended⟩ := append_empty .uint64 (IntTy.uint64.wrap n)
      rw [← fillMessage_taken Draft.empty ⟨numeral.leading, inside, .inl rfl⟩] at appended
      exact (converts.valueRefused Draft.empty foreign).ne_ok d appended
    · intro inside
      by_contra outside
      have refused : ∀ m, ¬ Taken .uint64 s m := by
        rintro m ⟨leading, held, _⟩
        rw [Option.some.inj (numeral.leading.symm.trans leading)] at outside
        exact outside held
      obtain ⟨d, appended⟩ := append_empty .uint64 ⟨n, inside⟩
      rw [← converts.value Draft.empty ⟨n, inside⟩ numeral] at appended
      exact (fillMessage_refused Draft.empty refused).ne_ok d appended
  other := by
    intro foreign n leading inside
    obtain ⟨d, appended⟩ := append_empty t (t.wrap n)
    rw [← fillMessage_taken Draft.empty (taken_iff.mpr ⟨leading, inside⟩)] at appended
    exact (converts.valueRefused Draft.empty fun m => foreign m.val).ne_ok d appended

/-- Strings given for integers are converted exactly where the limits of `long long` do not
matter and nothing but a numeral is taken for one. -/
theorem numericString_exact_iff (t : IntTy) (s : Str) : ConvertsExactly t s ↔ ReadExactly t s :=
  ⟨ConvertsExactly.reads, ReadExactly.converts⟩

/-- A number with text behind it is taken for the number. -/
theorem numericString_trailing : ¬ ∀ t s, ConvertsExactly t s := by
  intro always
  have reads := (always .int32 "12abc".toList).reads
  have foreign : ∀ n, ¬ Numeral "12abc".toList n := by
    intro n numeral
    have digits : ∀ c ∈ "12abc".toList, c.isDigit = true := by
      generalize text : "12abc".toList = s at numeral
      cases numeral with
      | plain _ all => exact all
      | minus => cases text
    exact absurd (digits 'a' (by decide)) (by decide)
  exact reads.other foreign 12 (by decide) (by decide)

end Dbus2Http.Json2Message

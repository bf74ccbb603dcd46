import Dbus2Http.FilledValues

set_option autoImplicit false

namespace Dbus2Http.Rand2Json

open Cxx (Str Run throwExn substr substrFrom charAt)
open Dbus (IntTy Basic Ty Value Draft LawfulWriter)
open Json2Message (Part DictPart Filled Converted IntegerRule)
open SignatureUtils (substrFrom_array substr_struct substr_entry substr_key substrFrom_key)

/-! ### Random draws -/

/-- What the distributions, and the variable that is never set, yield at each moment. -/
structure Draws where
  bool : Nat → Bool
  pos : Nat → { n : Int // 0 ≤ n ∧ n ≤ 100 }
  neg : Nat → { n : Int // -100 ≤ n ∧ n ≤ 5 }
  repeats : Nat → { n : Nat // 2 ≤ n ∧ n ≤ 3 }

/-- What `RandJson` makes of a signature at a moment, with the moment after it. -/
abbrev Sampler := Str → Nat → Run (Json × Nat)

/-- `for (size_t i = 0; i < dist_repeat_(gen); ++i)`: the bound is drawn at every test. -/
def repeatLoop {α : Type} (draws : Draws) (body : α → Nat → Run (α × Nat)) :
    Nat → Nat → α → Nat → Run (α × Nat)
  | 0, _, _, _ => .error .outOfFuel
  | tests + 1, i, result, now =>
      if i < (draws.repeats now).val then do
        let (result, now) ← body result (now + 1)
        repeatLoop draws body tests (i + 1) result now
      else .ok (result, now + 1)

/-- The bound is at most three, so the fourth test is the last. -/
def repeatTests : Nat := 4

/-! ### One call, given what the calls inside it do -/

/-- `result.push_back(RandJson(sig))`. -/
def randItem (rand : Sampler) (sig : Str) (result : List Json) (now : Nat) :
    Run (List Json × Nat) := do
  let (value, now) ← rand sig now
  .ok (result ++ [value], now)

def randEntry (rand : Sampler) (elementSig : Str) (result : Json) (now : Nat) :
    Run (Json × Nat) := do
  let keySig ← substr elementSig 0 1
  let (key, now) ← rand keySig now
  let valueSig ← substrFrom elementSig 1
  let (value, now) ← rand valueSig now
  let result ← result.setMember key.keyText value
  .ok (result, now)

def randArray (draws : Draws) (rand : Sampler) (sig : Str) (now : Nat) : Run (Json × Nat) := do
  let arraySig ← substrFrom sig 1
  if charAt sig 1 = '{' then do
    let elementSig ← substr arraySig 1 (arraySig.length - 2)
    repeatLoop draws (randEntry rand elementSig) repeatTests 0 .null now
  else if charAt sig 1 = '(' then do
    let elementSig ← substr arraySig 1 (arraySig.length - 2)
    let (items, now) ← repeatLoop draws (randItem rand elementSig) repeatTests 0 [] now
    .ok (.array items, now)
  else do
    let (items, now) ← repeatLoop draws (randItem rand arraySig) repeatTests 0 [] now
    .ok (.array items, now)

def randVariant (rand : Sampler) (now : Nat) : Run (Json × Nat) := do
  let elementSig := ['a', '{', 's', 'i', '}']
  let (value, now) ← rand elementSig now
  .ok (.object [("value".toList, value), ("variant".toList, .string elementSig)], now)

def randPiece (draws : Draws) (rand : Sampler) (sig : Str) (now : Nat) : Run (Json × Nat) :=
  match charAt sig 0 with
  | 'b' => .ok (.bool (draws.bool now), now + 1)
  | 'y' | 'q' | 'u' | 't' => .ok (.integer (IntTy.int64.wrap (draws.pos now).val), now + 1)
  | 'n' | 'i' | 'x' | 'd' => .ok (.integer (IntTy.int64.wrap (draws.neg now).val), now + 1)
  | 's' => .ok (.string "hello".toList, now)
  | 'v' => randVariant rand now
  | '(' => do
      let elementSig ← substr sig 1 (sig.length - 2)
      rand elementSig now
  | 'a' => randArray draws rand sig now
  | c =>
      if c = 'h' ∨ c ∈ SignatureUtils.unsupportedCodes then
        throwExn .invalidArgument ("Unsupported signature: ".toList ++ sig)
      else throwExn .invalidArgument ("Unknown signature: ".toList ++ sig)

def randPieces (rand : Sampler) (completeSigs : List Str) (now : Nat) : Run (Json × Nat) := do
  let (items, now) ← completeSigs.foldlM (fun state sig => randItem rand sig state.1 state.2) ([], now)
  .ok (.array items, now)

def randCall (draws : Draws) (rand : Sampler) : Sampler := fun sig now => do
  let completeSigs ← SignatureUtils.split sig
  if 1 < completeSigs.length then randPieces rand completeSigs now
  else randPiece draws rand sig now

/-! ### The recursion -/

def randLoop (draws : Draws) : Nat → Sampler
  | 0 => fun _ _ => .error .outOfFuel
  | fuel + 1 => randCall draws (randLoop draws fuel)

/-- Signatures get shorter inward, except that a variant starts again from one of five
characters that holds no variant. -/
def randJson (draws : Draws) : Sampler := fun sig now => randLoop draws (sig.length + 4) sig now

/-- A request object under construction, the number of arguments named so far without a
name of their own, and the moment. -/
structure ArgumentState where
  result : Json
  i : Nat
  now : Nat

def randArgument (draws : Draws) (state : ArgumentState) (arg : Argument) : Run ArgumentState := do
  let unnamed := arg.name = []
  let argName := if unnamed then "arg".toList ++ Cxx.toDecimal state.i else arg.name
  let (value, now) ← randJson draws arg.type state.now
  let result ← state.result.setMember argName value
  .ok ⟨result, if unnamed then state.i + 1 else state.i, now⟩

/-- The overload for the arguments of a method. -/
def randArguments (draws : Draws) (args : List Argument) (now : Nat) : Run Json := do
  let final ← args.foldlM (randArgument draws) ⟨.null, 0, now⟩
  .ok final.result

/-! ### Loops of two or three rounds -/

/-- The body runs at least twice, and the loop ends. -/
theorem repeatLoop_rounds {α : Type} {P : Nat → α → Prop} {draws : Draws}
    {body : α → Nat → Run (α × Nat)}
    (round : ∀ i r now, P i r → ∃ r' now', body r now = .ok (r', now') ∧ P (i + 1) r')
    {tests i : Nat} {r : α} (now : Nat) (enough : 3 < tests + i) (few : i ≤ 3) (holds : P i r) :
    ∃ n r' now', 2 ≤ n ∧ repeatLoop draws body tests i r now = .ok (r', now') ∧ P n r' := by
  induction tests generalizing i r now with
  | zero => omega
  | succ tests ih =>
      have bounds := (draws.repeats now).property
      by_cases more : i < (draws.repeats now).val
      · obtain ⟨r₁, now₁, ran, holds₁⟩ := round i r (now + 1) holds
        obtain ⟨n, r₂, now₂, atLeast, ended, holds₂⟩ := ih now₁ (by omega) (by omega) holds₁
        refine ⟨n, r₂, now₂, atLeast, ?_, holds₂⟩
        simp only [repeatLoop, more, ↓reduceIte, ran, Cxx.bind_ok, ended]
      · refine ⟨i, r, now + 1, by omega, ?_, holds⟩
        simp only [repeatLoop, more, ↓reduceIte]

theorem repeatLoop_returns {α : Type} {P : Nat → α → Prop} (draws : Draws)
    {body : α → Nat → Run (α × Nat)}
    (round : ∀ i r now, P i r → ∃ r' now', body r now = .ok (r', now') ∧ P (i + 1) r')
    {r : α} (now : Nat) (holds : P 0 r) :
    ∃ n r' now', 2 ≤ n ∧ repeatLoop draws body repeatTests 0 r now = .ok (r', now') ∧ P n r' :=
  repeatLoop_rounds round now (by decide) (by decide) holds

/-! ### Samples -/

/-- The types a sample is made for. -/
inductive Sampled : Ty → Prop
  | basic {b : Basic} (value : b ≠ .objectPath ∧ b ≠ .signature ∧ b ≠ .unixFd) : Sampled (.basic b)
  | variant : Sampled .variant
  | struct {fields : List Ty} (some : fields ≠ []) (each : ∀ field ∈ fields, Sampled field) :
      Sampled (.struct fields)
  | array {elem : Ty} (flat : ∀ inner, elem ≠ .array inner) (each : Sampled elem) :
      Sampled (.array elem)
  | dict {key : Basic} {value : Ty} (named : key = .string ∨ ∃ t, key = .int t)
      (each : Sampled value) : Sampled (.array (.entry (.basic key) value))

theorem Sampled.not_entry {t : Ty} (sampled : Sampled t) (key value : Ty) : t ≠ .entry key value := by
  cases sampled <;> simp

theorem Sampled.splits {t : Ty} (sampled : Sampled t) : SignatureUtils.Splits t := by
  cases sampled with
  | basic value => exact ⟨value.1, value.2.1⟩
  | variant => trivial
  | struct => trivial
  | array flat each =>
      rename_i elem
      cases elem with
      | array inner => exact absurd rfl (flat inner)
      | _ => trivial
  | dict => trivial

theorem Sampled.single {t : Ty} (sampled : Sampled t) : t.Single := by
  induction sampled with
  | basic => exact Ty.single_basic _
  | variant => exact Ty.single_variant
  | struct some each ih => exact (Ty.single_struct _).mpr ⟨some, ih⟩
  | array flat each ih => exact (Ty.single_array _).mpr ih.element
  | dict named each ih => exact (Ty.single_array _).mpr ((Ty.element_entry _ _).mpr ⟨rfl, ih⟩)

/-- At every moment a sample of the types is made that stands for values of them. -/
def Samples (draws : Draws) (fuel : Nat) (ts : List Ty) : Prop :=
  ∀ now, ∃ json now' vs, randLoop draws fuel (Ty.texts ts) now = .ok (json, now') ∧
    Filled Converted ts json vs

theorem Samples.one {draws : Draws} {fuel : Nat} {t : Ty} (samples : Samples draws fuel [t])
    (value : t ≠ .basic .unixFd) (now : Nat) :
    ∃ json now' v, randLoop draws fuel t.text now = .ok (json, now') ∧ v.typeOf = t ∧
      Filled Converted [t] json [v] := by
  obtain ⟨json, now', vs, ran, filled⟩ := samples now
  rw [Ty.texts_singleton] at ran
  rcases filled.one with ⟨descriptor, _⟩ | ⟨v, rfl, type⟩
  · exact absurd descriptor value
  · exact ⟨json, now', v, ran, type, filled⟩

theorem randLoop_one (draws : Draws) (fuel : Nat) {t : Ty} (splits : SignatureUtils.Splits t)
    (now : Nat) :
    randLoop draws (fuel + 1) (Ty.texts [t]) now =
      randPiece draws (randLoop draws fuel) t.text now := by
  rw [Ty.texts_singleton, randLoop, randCall, SignatureUtils.split_text splits]
  rfl

/-- A number drawn between -100 and 100 that the type represents. -/
theorem drawn_filled {t : IntTy} {n : Int} (small : -100 ≤ n ∧ n ≤ 100) :
    Filled Converted [.basic (.int t)] (.integer (IntTy.int64.wrap n)) [.int t (t.wrap n)] := by
  have inside : IntTy.int64.Holds n := by
    have limits : IntTy.int64.min = -9223372036854775808 ∧ IntTy.int64.max = 9223372036854775807 := by
      decide
    constructor <;> omega
  rw [IntTy.wrap_of_holds inside]
  exact .int (.inl ⟨n, rfl, rfl⟩)

theorem samples_basic (draws : Draws) (fuel : Nat) {b : Basic}
    (value : b ≠ .objectPath ∧ b ≠ .signature ∧ b ≠ .unixFd) :
    Samples draws (fuel + 1) [.basic b] := by
  intro now
  have splits : SignatureUtils.Splits (.basic b) := ⟨value.1, value.2.1⟩
  rw [randLoop_one draws fuel splits]
  have pos := (draws.pos now).property
  have neg := (draws.neg now).property
  cases b with
  | bool => exact ⟨_, _, _, rfl, .bool _⟩
  | int t =>
      cases t with
      | byte => exact ⟨_, _, _, rfl, drawn_filled (by omega)⟩
      | int16 => exact ⟨_, _, _, rfl, drawn_filled (by omega)⟩
      | uint16 => exact ⟨_, _, _, rfl, drawn_filled (by omega)⟩
      | int32 => exact ⟨_, _, _, rfl, drawn_filled (by omega)⟩
      | uint32 => exact ⟨_, _, _, rfl, drawn_filled (by omega)⟩
      | int64 => exact ⟨_, _, _, rfl, drawn_filled (by omega)⟩
      | uint64 => exact ⟨_, _, _, rfl, drawn_filled (by omega)⟩
  | double => exact ⟨_, _, _, rfl, .double rfl⟩
  | string => exact ⟨_, _, _, rfl, .string _⟩
  | objectPath => exact absurd rfl value.1
  | signature => exact absurd rfl value.2.1
  | unixFd => exact absurd rfl value.2.2

theorem randPieces_fold {draws : Draws} {fuel : Nat} {ts : List Ty}
    (samples : ∀ t ∈ ts, Samples draws fuel [t]) (done : List Json) (now : Nat) :
    ∃ (parts : List Part) (now' : Nat), parts.map Part.type = ts ∧
      (∀ p ∈ parts, Filled Converted [p.type] p.json p.values) ∧
      (ts.map Ty.text).foldlM (fun state sig => randItem (randLoop draws fuel) sig state.1 state.2)
        (done, now) = .ok (done ++ parts.map Part.json, now') := by
  induction ts generalizing done now with
  | nil => exact ⟨[], now, rfl, by simp, by simp [pure, Except.pure]⟩
  | cons t ts ih =>
      obtain ⟨json, now₁, vs, ran, filled⟩ := samples t (by simp) now
      obtain ⟨parts, now₂, types, each, folded⟩ :=
        ih (fun u member => samples u (by simp [member])) (done ++ [json]) now₁
      rw [Ty.texts_singleton] at ran
      refine ⟨⟨t, json, vs⟩ :: parts, now₂, by rw [List.map_cons, types], ?_, ?_⟩
      · intro p member
        rcases List.mem_cons.mp member with same | later
        · rw [same]
          exact filled
        · exact each p later
      · rw [List.map_cons, List.foldlM_cons]
        simp only [randItem, ran, Cxx.bind_ok]
        simp only [randItem] at folded
        rw [folded, List.map_cons, List.append_assoc, List.singleton_append]

theorem samples_several {draws : Draws} {fuel : Nat} {ts : List Ty} (several : 1 < ts.length)
    (splits : ∀ t ∈ ts, SignatureUtils.Splits t) (samples : ∀ t ∈ ts, Samples draws fuel [t]) :
    Samples draws (fuel + 1) ts := by
  intro now
  obtain ⟨parts, now', types, each, folded⟩ := randPieces_fold samples [] now
  have count := congrArg List.length types
  rw [List.length_map] at count
  refine ⟨.array (parts.map Part.json), now', parts.flatMap Part.values, ?_, ?_⟩
  · rw [randLoop, randCall, SignatureUtils.split_texts splits, Cxx.bind_ok, List.length_map,
      if_pos several, randPieces, folded]
    rfl
  · rw [← types]
    exact .several parts (by omega) each

theorem samples_struct {draws : Draws} {fuel : Nat} {fields : List Ty}
    (single : (Ty.struct fields).Single) (free : Ty.basic .unixFd ∉ fields)
    (samples : Samples draws fuel fields) : Samples draws (fuel + 1) [.struct fields] := by
  intro now
  obtain ⟨json, now', vs, ran, filled⟩ := samples now
  have splits : SignatureUtils.Splits (.struct fields) := trivial
  refine ⟨json, now', [.struct vs], ?_, .struct single (filled.types free) filled⟩
  rw [randLoop_one draws fuel splits]
  change (do let elementSig ← substr _ 1 _; _) = _
  rw [substr_struct, Cxx.bind_ok, ran]

/-- Every item stands for a value of the element type. -/
def ItemsFor (elem : Ty) (items : List Json) : Prop :=
  ∀ item ∈ items, ∃ p : Part, p.json = item ∧
    (p.type = elem ∧ Filled Converted [p.type] p.json p.values)

theorem samples_items {draws : Draws} {fuel : Nat} {elem : Ty} {sig : Str}
    (samples : ∀ now, ∃ json now' vs, randLoop draws fuel sig now = .ok (json, now') ∧
      Filled Converted [elem] json vs) (now : Nat) :
    ∃ (parts : List Part) (now' : Nat), (∀ p ∈ parts, p.type = elem) ∧
      (∀ p ∈ parts, Filled Converted [p.type] p.json p.values) ∧
      repeatLoop draws (randItem (randLoop draws fuel) sig) repeatTests 0 [] now =
        .ok (parts.map Part.json, now') := by
  have round : ∀ (i : Nat) (items : List Json) (now : Nat), ItemsFor elem items →
      ∃ items' now', randItem (randLoop draws fuel) sig items now = .ok (items', now') ∧
        ItemsFor elem items' := by
    intro i items now good
    obtain ⟨json, now', vs, ran, filled⟩ := samples now
    refine ⟨items ++ [json], now', ?_, ?_⟩
    · simp only [randItem, ran, Cxx.bind_ok]
    · intro item inside
      rcases List.mem_append.mp inside with before | last
      · exact good item before
      · rw [List.mem_singleton.mp last]
        exact ⟨⟨elem, json, vs⟩, rfl, rfl, filled⟩
  have start : ItemsFor elem [] := by simp [ItemsFor]
  obtain ⟨n, items, now', _, ended, good⟩ :=
    repeatLoop_returns (P := fun _ => ItemsFor elem) draws round now start
  obtain ⟨parts, same, facts⟩ := Json2Message.exists_parts good
  rw [same] at ended
  exact ⟨parts, now', fun p member => (facts p member).1, fun p member => (facts p member).2, ended⟩

/-- The sample of a struct is that of its fields. -/
theorem samples_fields {draws : Draws} {fuel : Nat} {fields : List Ty}
    (samples : Samples draws (fuel + 1) [.struct fields]) (now : Nat) :
    ∃ json now' vs, randLoop draws fuel (Ty.texts fields) now = .ok (json, now') ∧
      Filled Converted [.struct fields] json vs := by
  obtain ⟨json, now', vs, ran, filled⟩ := samples now
  have splits : SignatureUtils.Splits (.struct fields) := trivial
  rw [randLoop_one draws fuel splits] at ran
  change (do let elementSig ← substr _ 1 _; _) = _ at ran
  rw [substr_struct, Cxx.bind_ok] at ran
  exact ⟨json, now', vs, ran, filled⟩

/-- Structs are sampled through their fields, other elements as they are. -/
theorem samples_array {draws : Draws} {fuel : Nat} {elem : Ty} (element : elem.Element)
    (plain : ∀ key value, elem ≠ .entry key value) (flat : ∀ inner, elem ≠ .array inner)
    (samples : ∀ more, Samples draws (fuel + more) [elem]) :
    Samples draws (fuel + 1) [.array elem] := by
  have splits : SignatureUtils.Splits (.array elem) := by
    cases elem with
    | array inner => exact absurd rfl (flat inner)
    | _ => trivial
  have filled : ∀ parts : List Part, (∀ p ∈ parts, p.type = elem) →
      (∀ p ∈ parts, Filled Converted [p.type] p.json p.values) →
      Filled Converted [.array elem] (.array (parts.map Part.json))
        [.array elem (parts.flatMap Part.values)] := by
    intro parts types each
    exact .array element splits plain rfl parts rfl types each
  have direct : charAt (Ty.array elem).text 1 ≠ '{' → charAt (Ty.array elem).text 1 ≠ '(' →
      Samples draws (fuel + 1) [.array elem] := by
    intro notDict notStruct now
    obtain ⟨parts, now', types, each, ended⟩ := samples_items (samples 0) now
    rw [Ty.texts_singleton, Nat.add_zero] at ended
    refine ⟨_, now', _, ?_, filled parts types each⟩
    rw [randLoop_one draws fuel splits]
    change randArray draws _ _ _ = _
    rw [randArray, substrFrom_array, Cxx.bind_ok, if_neg notDict, if_neg notStruct, ended]
    rfl
  cases elem with
  | basic b => exact direct b.code_plain.2.2.2.2.1 b.code_plain.2.2.1
  | variant => exact direct (by decide) (by decide)
  | array inner => exact absurd rfl (flat inner)
  | entry key value => exact absurd rfl (plain key value)
  | struct ts =>
      intro now
      obtain ⟨parts, now', types, each, ended⟩ := samples_items (samples_fields (samples 1)) now
      have notDict : charAt (Ty.array (.struct ts)).text 1 ≠ '{' := by simp [charAt]
      have struct : charAt (Ty.array (.struct ts)).text 1 = '(' := rfl
      refine ⟨_, now', _, ?_, filled parts types each⟩
      rw [randLoop_one draws fuel splits]
      change randArray draws _ _ _ = _
      rw [randArray, substrFrom_array, Cxx.bind_ok, if_neg notDict, if_pos struct, substr_struct,
        Cxx.bind_ok, ended]
      rfl

theorem holds_pos (t : IntTy) {n : Int} (drawn : 0 ≤ n ∧ n ≤ 100) : t.Holds n := by
  have limits : t.min ≤ 0 ∧ 100 ≤ t.max := by cases t <;> decide
  exact ⟨by omega, by omega⟩

theorem holds_neg {t : IntTy} (signed : t.signed = true) {n : Int} (drawn : -100 ≤ n ∧ n ≤ 5) :
    t.Holds n := by
  have limits : t.min ≤ -100 ∧ 5 ≤ t.max := by
    cases t <;> first
      | contradiction
      | decide
  exact ⟨by omega, by omega⟩

/-- A sampled key is read back from the member name made of it. -/
theorem samples_key (draws : Draws) (fuel : Nat) {key : Basic}
    (named : key = .string ∨ ∃ t, key = .int t) (now : Nat) :
    ∃ json now' v, randLoop draws (fuel + 1) (Ty.basic key).text now = .ok (json, now') ∧
      v.typeOf = .basic key ∧ Filled Converted [.basic key] (.string json.keyText) [v] := by
  have splits : SignatureUtils.Splits (.basic key) := by
    rcases named with rfl | ⟨t, rfl⟩ <;> exact ⟨by simp, by simp⟩
  have step := randLoop_one draws fuel splits now
  rw [Ty.texts_singleton] at step
  rw [step]
  have pos := (draws.pos now).property
  have neg := (draws.neg now).property
  have integer : ∀ {t : IntTy} {n : Int}, t.Holds n →
      Filled Converted [.basic (.int t)] (.string (Json.integer (IntTy.int64.wrap n)).keyText)
        [.int t (t.wrap n)] := by
    intro t n inside
    rw [IntTy.wrap_of_holds inside]
    exact Filled.key ⟨n, inside⟩
  rcases named with rfl | ⟨t, rfl⟩
  · exact ⟨_, _, _, rfl, rfl, .string _⟩
  · cases t with
    | byte => exact ⟨_, _, _, rfl, rfl, integer (holds_pos _ pos)⟩
    | int16 => exact ⟨_, _, _, rfl, rfl, integer (holds_neg rfl neg)⟩
    | uint16 => exact ⟨_, _, _, rfl, rfl, integer (holds_pos _ pos)⟩
    | int32 => exact ⟨_, _, _, rfl, rfl, integer (holds_neg rfl neg)⟩
    | uint32 => exact ⟨_, _, _, rfl, rfl, integer (holds_pos _ pos)⟩
    | int64 => exact ⟨_, _, _, rfl, rfl, integer (holds_neg rfl neg)⟩
    | uint64 => exact ⟨_, _, _, rfl, rfl, integer (holds_pos _ pos)⟩

/-- A member of a dict under construction stands for an entry. -/
def EntryFor (key value : Ty) (member : Str × Json) : Prop :=
  ∃ p : DictPart, (p.name, p.json) = member ∧ ((p.key.typeOf = key ∧ p.value.typeOf = value) ∧
    Filled Converted [key] (.string p.name) [p.key] ∧ Filled Converted [value] p.json [p.value])

/-- After the first round there is an object, and its members stand for entries. -/
def DictSoFar (key value : Ty) (rounds : Nat) (result : Json) : Prop :=
  (rounds = 0 ∧ result = .null) ∨
    ∃ members, result = .object members ∧ ∀ member ∈ members, EntryFor key value member

theorem DictSoFar.setMember {key value : Ty} {rounds : Nat} {result json : Json} {name : Str}
    (soFar : DictSoFar key value rounds result) (entry : EntryFor key value (name, json)) :
    ∃ result', result.setMember name json = .ok result' ∧ DictSoFar key value (rounds + 1) result' := by
  rcases soFar with ⟨_, rfl⟩ | ⟨members, rfl, good⟩
  · refine ⟨_, rfl, .inr ⟨_, rfl, ?_⟩⟩
    intro member inside
    rw [List.mem_singleton.mp inside]
    exact entry
  · refine ⟨_, rfl, .inr ⟨_, rfl, ?_⟩⟩
    intro member inside
    rcases OrderedMap.mem_insertEntry inside with same | before
    · rw [same]
      exact entry
    · exact good member before

theorem samples_dict {draws : Draws} {fuel : Nat} {key : Basic} {value : Ty}
    (named : key = .string ∨ ∃ t, key = .int t) (single : value.Single)
    (valued : value ≠ .basic .unixFd) (positive : 0 < fuel) (samples : Samples draws fuel [value]) :
    Samples draws (fuel + 1) [.array (.entry (.basic key) value)] := by
  obtain ⟨fuel, rfl⟩ := Nat.exists_eq_succ_of_ne_zero (Nat.ne_of_gt positive)
  intro now
  have splits : SignatureUtils.Splits (.array (.entry (.basic key) value)) := trivial
  have element : (Ty.entry (.basic key) value).Element := (Ty.element_entry _ _).mpr ⟨rfl, single⟩
  have round : ∀ (i : Nat) (result : Json) (now : Nat), DictSoFar (.basic key) value i result →
      ∃ result' now', randEntry (randLoop draws (fuel + 1)) (key.code :: value.text) result now =
        .ok (result', now') ∧ DictSoFar (.basic key) value (i + 1) result' := by
    intro i result now soFar
    obtain ⟨keyJson, now₁, k, ranKey, keyType, keyFilled⟩ := samples_key draws fuel named now
    obtain ⟨valueJson, now₂, v, ranValue, valueType, valueFilled⟩ := samples.one valued now₁
    have entry : EntryFor (.basic key) value (keyJson.keyText, valueJson) :=
      ⟨⟨keyJson.keyText, valueJson, k, v⟩, rfl, ⟨keyType, valueType⟩, keyFilled, valueFilled⟩
    obtain ⟨result', set, soFar'⟩ := soFar.setMember entry
    refine ⟨result', now₂, ?_, soFar'⟩
    rw [Ty.text_basic] at ranKey
    simp only [randEntry, substr_key, substrFrom_key, ranKey, ranValue, set, Cxx.bind_ok]
  have start : DictSoFar (.basic key) value 0 .null := .inl ⟨rfl, rfl⟩
  obtain ⟨n, result, now', rounds, ended, soFar⟩ :=
    repeatLoop_returns (P := DictSoFar (.basic key) value) draws round now start
  rcases soFar with ⟨none, _⟩ | ⟨members, rfl, good⟩
  · omega
  · obtain ⟨parts, visited, facts⟩ := Json2Message.exists_parts good
    have dict : charAt (Ty.array (.entry (.basic key) value)).text 1 = '{' := rfl
    have cut : substr (Ty.entry (.basic key) value).text 1
        ((Ty.entry (.basic key) value).text.length - 2) = .ok (key.code :: value.text) :=
      substr_entry (.basic key) value
    refine ⟨.object members, now', _, ?_, .dict element rfl parts visited
      (fun p member => (facts p member).1) (fun p member => (facts p member).2.1)
      (fun p member => (facts p member).2.2)⟩
    rw [randLoop_one draws (fuel + 1) splits]
    change randArray draws _ _ _ = _
    rw [randArray, substrFrom_array, Cxx.bind_ok, if_pos dict, cut, Cxx.bind_ok, ended]

theorem samples_variant (draws : Draws) (fuel : Nat) : Samples draws (fuel + 3) [.variant] := by
  intro now
  have inner : Samples draws (fuel + 2) [.array (.entry (.basic .string) (.basic (.int .int32)))] :=
    samples_dict (.inl rfl) (by simp) (by simp) (Nat.succ_pos fuel)
      (samples_basic draws fuel (by simp))
  obtain ⟨json, now', v, ran, type, filled⟩ := inner.one (by simp) now
  have text : (Ty.array (.entry (.basic .string) (.basic (.int .int32)))).text =
      ['a', '{', 's', 'i', '}'] := rfl
  rw [text] at ran
  refine ⟨.object [("value".toList, json), ("variant".toList, .string ['a', '{', 's', 'i', '}'])],
    now', [.variant v], ?_, .variant (by decide) rfl rfl type filled⟩
  have splits : SignatureUtils.Splits .variant := trivial
  rw [randLoop_one draws (fuel + 2) splits]
  change randVariant _ _ = _
  rw [randVariant]
  simp only [ran, Cxx.bind_ok]

/-- Several types need one call more than the longest of them. -/
theorem samples_sequence {draws : Draws} {ts : List Ty} (some : ts ≠ [])
    (splits : ∀ t ∈ ts, SignatureUtils.Splits t)
    (samples : ∀ t ∈ ts, ∀ fuel, t.text.length + 3 ≤ fuel → Samples draws fuel [t]) {fuel : Nat}
    (enough : (Ty.texts ts).length + 4 ≤ fuel) : Samples draws fuel ts := by
  rcases ts with _ | ⟨first, _ | ⟨second, others⟩⟩
  · contradiction
  · apply samples first (by simp)
    simp only [Ty.texts_cons, Ty.texts_nil, List.append_nil] at enough
    omega
  · obtain ⟨fuel, rfl⟩ := Nat.exists_eq_succ_of_ne_zero (show fuel ≠ 0 by omega)
    refine samples_several (by simp) splits ?_
    intro t inside
    apply samples t inside
    have shorter : t.text.length ≤ (Ty.texts (first :: second :: others)).length := by
      obtain ⟨before, after, same⟩ := List.append_of_mem inside
      rw [same, Ty.texts_append, Ty.texts_cons, List.length_append, List.length_append]
      omega
    omega

/-- A sample of every such type is made, and stands for a value of it. -/
theorem Sampled.samples {t : Ty} (sampled : Sampled t) (draws : Draws) :
    ∀ fuel, t.text.length + 3 ≤ fuel → Samples draws fuel [t] := by
  induction sampled with
  | basic value =>
      intro fuel enough
      obtain ⟨fuel, rfl⟩ := Nat.exists_eq_succ_of_ne_zero (show fuel ≠ 0 by omega)
      exact samples_basic draws fuel value
  | variant =>
      intro fuel enough
      obtain ⟨more, rfl⟩ := Nat.exists_eq_add_of_le' (show 3 ≤ fuel by omega)
      exact samples_variant draws more
  | @struct fields some each ih =>
      intro fuel enough
      obtain ⟨fuel, rfl⟩ := Nat.exists_eq_succ_of_ne_zero (show fuel ≠ 0 by omega)
      simp only [Ty.text_struct, List.length_cons, List.length_append, List.length_nil] at enough
      have free : Ty.basic .unixFd ∉ fields := by
        intro inside
        cases each _ inside with
        | basic value => exact value.2.2 rfl
      apply samples_struct (Sampled.struct some each).single free
      exact samples_sequence some (fun t inside => (each t inside).splits) ih (by omega)
  | @array elem flat each ih =>
      intro fuel enough
      obtain ⟨fuel, rfl⟩ := Nat.exists_eq_succ_of_ne_zero (show fuel ≠ 0 by omega)
      simp only [Ty.text_array, List.length_cons] at enough
      apply samples_array each.single.element each.not_entry flat
      intro more
      exact ih (fuel + more) (by omega)
  | @dict key value named each ih =>
      intro fuel enough
      obtain ⟨fuel, rfl⟩ := Nat.exists_eq_succ_of_ne_zero (show fuel ≠ 0 by omega)
      simp only [Ty.text_array, Ty.text_entry, List.length_cons, List.length_append] at enough
      have valued : value ≠ .basic .unixFd := by
        intro same
        rw [same] at each
        cases each with
        | basic value => exact value.2.2 rfl
      exact samples_dict named each.single valued (by omega) (ih fuel (by omega))

/-! ### Requests -/

/-- An argument a sample is made for. -/
def SampledArgument (arg : Argument) : Prop :=
  arg.name ≠ [] ∧ ∃ ts, ts ≠ [] ∧ (∀ t ∈ ts, Sampled t) ∧ arg.type = Ty.texts ts

/-- The request so far is an object, with a member for each argument seen that stands
for values of its types. -/
structure RequestFor (args : List Argument) (result : Json) : Prop where
  object : result = .null ∧ args = [] ∨ ∃ members, result = .object members
  member : ∀ arg ∈ args, ∃ json ts vs, result.member? arg.name = some json ∧
    arg.type = Ty.texts ts ∧ (∀ t ∈ ts, Sampled t) ∧ Filled Converted ts json vs

/-- One more argument, under a name of its own. -/
theorem randArgument_step (draws : Draws) {args : List Argument} {arg : Argument}
    {state : ArgumentState} (soFar : RequestFor args state.result) (sampled : SampledArgument arg)
    (fresh : arg.name ∉ args.map Argument.name) :
    ∃ state', randArgument draws state arg = .ok state' ∧
      RequestFor (args ++ [arg]) state'.result := by
  obtain ⟨named, ts, some, types, type⟩ := sampled
  have samples : Samples draws (arg.type.length + 4) ts := by
    apply samples_sequence some (fun t inside => (types t inside).splits)
      (fun t inside => (types t inside).samples draws)
    rw [type]
  obtain ⟨json, now', vs, ran, filled⟩ := samples state.now
  rw [← type] at ran
  have sample : randJson draws arg.type state.now = .ok (json, now') := ran
  have growing : state.result.Growing := soFar.object.imp_left And.left
  obtain ⟨members, set⟩ := growing.setMember arg.name json
  refine ⟨⟨.object members, state.i, now'⟩, ?_, .inr ⟨members, rfl⟩, ?_⟩
  · simp only [randArgument, named, ↓reduceIte, sample, set, Cxx.bind_ok]
  · intro other inside
    rw [Json.member?_setMember set]
    rcases List.mem_append.mp inside with before | last
    · have different : other.name ≠ arg.name := by
        intro same
        apply fresh
        rw [← same]
        exact List.mem_map_of_mem before
      rw [if_neg different]
      exact soFar.member other before
    · rw [List.mem_singleton.mp last, if_pos rfl]
      exact ⟨json, ts, vs, rfl, type, types, filled⟩

theorem randArguments_fold (draws : Draws) {args done : List Argument} {state : ArgumentState}
    (soFar : RequestFor done state.result) (sampled : ∀ arg ∈ args, SampledArgument arg)
    (distinct : ((done ++ args).map Argument.name).Nodup) :
    ∃ state', args.foldlM (randArgument draws) state = .ok state' ∧
      RequestFor (done ++ args) state'.result := by
  induction args generalizing done state with
  | nil =>
      rw [List.append_nil]
      exact ⟨state, rfl, soFar⟩
  | cons arg args ih =>
      have regroup : done ++ arg :: args = (done ++ [arg]) ++ args := by simp
      rw [regroup] at distinct ⊢
      have fresh : arg.name ∉ done.map Argument.name := by
        rw [List.map_append, List.map_append] at distinct
        have apart := (List.nodup_append.mp (List.nodup_append.mp distinct).1).2.2
        intro inside
        exact apart _ inside arg.name (by simp) rfl
      obtain ⟨state₁, ran, soFar₁⟩ := randArgument_step draws soFar (sampled arg (by simp)) fresh
      obtain ⟨state₂, rest, soFar₂⟩ :=
        ih soFar₁ (fun other inside => sampled other (by simp [inside])) distinct
      exact ⟨state₂, by rw [List.foldlM_cons, ran, Cxx.bind_ok, rest], soFar₂⟩

/-- A request with a member for every argument is accepted. -/
theorem fillArguments_request {M : Type} [LawfulWriter M] {message : M} {args : List Argument}
    {request : Json} (fresh : LawfulWriter.draft message = Draft.empty)
    (complete : RequestFor args request) :
    ∃ message', Json2Message.fillArguments message args request = .ok message' := by
  have found : ∀ arg ∈ args, ∃ p : Json2Message.ArgumentPart, p.arg = arg ∧
      (p.Given request ∧ ∀ v ∈ p.values, v.typeOf.Single) := by
    intro arg inside
    obtain ⟨json, ts, vs, member, type, types, filled⟩ := complete.member arg inside
    refine ⟨⟨arg, json, ts, vs⟩, rfl, ⟨member, type, filled⟩, ?_⟩
    intro v appended
    exact (types _ (filled.typeOf_mem v appended)).single
  obtain ⟨parts, same, facts⟩ := Json2Message.exists_parts found
  have single : ∀ v ∈ parts.flatMap Json2Message.ArgumentPart.values, v.typeOf.Single := by
    intro v inside
    obtain ⟨p, member, here⟩ := List.mem_flatMap.mp inside
    exact (facts p member).2 v here
  have added := (Draft.putAll_any (d := Draft.empty) rfl).mpr ⟨single, rfl⟩
  have ok := Json2Message.fillArguments_eq_ok.mpr ⟨parts, same, fun p member => (facts p member).1, added⟩
  have alike := Json2Message.fillArguments_draft message args request
  rw [fresh, ok] at alike
  obtain ⟨message', done, _⟩ := alike.ok_right
  exact ⟨message', done⟩

/-- Whatever is drawn, the sample request is made and `FillMessage` accepts it. -/
theorem randArguments_callable {M : Type} [LawfulWriter M] {message : M}
    (fresh : LawfulWriter.draft message = Draft.empty) {args : List Argument}
    (distinct : (args.map Argument.name).Nodup) (sampled : ∀ arg ∈ args, SampledArgument arg)
    (draws : Draws) (now : Nat) :
    ∃ request, randArguments draws args now = .ok request ∧
      ∃ message', Json2Message.fillArguments message args request = .ok message' := by
  have start : RequestFor [] (ArgumentState.mk .null 0 now).result := ⟨.inl ⟨rfl, rfl⟩, by simp⟩
  obtain ⟨state, ran, complete⟩ := randArguments_fold draws start sampled distinct
  refine ⟨state.result, ?_, fillArguments_request fresh complete⟩
  rw [randArguments, ran, Cxx.bind_ok]

/-- A dict with integer keys beside a variant, with draws that collide. -/
theorem randArguments_callable_example :
    ∃ request, randArguments ⟨fun _ => true, fun _ => ⟨7, by decide⟩, fun _ => ⟨-1, by decide⟩,
        fun _ => ⟨2, by decide⟩⟩
        [{ name := "counts".toList, type := Ty.texts [.array (.entry (.basic (.int .byte)) .variant)] }]
        0 = .ok request ∧
      ∃ message', Json2Message.fillArguments Draft.empty
        [{ name := "counts".toList, type := Ty.texts [.array (.entry (.basic (.int .byte)) .variant)] }]
        request = .ok message' := by
  apply randArguments_callable rfl (by simp)
  intro arg inside
  rw [List.mem_singleton.mp inside]
  refine ⟨by decide, _, by simp, ?_, rfl⟩
  intro t member
  rw [List.mem_singleton.mp member]
  exact .dict (.inr ⟨.byte, rfl⟩) .variant

end Dbus2Http.Rand2Json

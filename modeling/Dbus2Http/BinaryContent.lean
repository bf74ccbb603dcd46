import Dbus2Http.CallHandler
import Dbus2Http.CodecRoundTrip
import Dbus2Http.ExtractedArrays

set_option autoImplicit false

namespace Dbus

open Cxx (Str)

/-! ### What a value contains -/

/-- A value stands in another at some depth: in structs, arrays, dict values and variants. -/
inductive Value.Contains : Value → Value → Prop
  | self (v : Value) : Contains v v
  | variant {content w : Value} (inner : Contains content w) : Contains (.variant content) w
  | element {elem : Ty} {items : List Value} {item w : Value} (inside : item ∈ items)
      (inner : Contains item w) : Contains (.array elem items) w
  | field {fields : List Value} {f w : Value} (inside : f ∈ fields) (inner : Contains f w) :
      Contains (.struct fields) w
  | dictValue {key value w : Value} (inner : Contains value w) : Contains (.entry key value) w

/-- Some of the values contain a descriptor or, with binary support, an array of bytes. -/
def HoldBinary (binarySupport : Bool) (vs : List Value) : Prop :=
  ∃ v ∈ vs, ∃ w, v.Contains w ∧
    (w.typeOf = .basic .unixFd ∨ binarySupport = true ∧ w.typeOf = .array (.basic (.int .byte)))

/-- The keys among the elements of an array. -/
def dictKeys (items : List Value) : List Value :=
  items.filterMap fun
    | .entry key _ => some key
    | _ => none

/-- Every dict in the values has strings or integers for keys, and they are pairwise distinct. -/
def DictsKeyed (vs : List Value) : Prop :=
  ∀ v ∈ vs, ∀ elem items, v.Contains (.array elem items) →
    (∀ key ∈ dictKeys items, key.typeOf = .basic .string ∨ ∃ t, key.typeOf = .basic (.int t)) ∧
      (dictKeys items).Nodup

section HoldBinary

variable {binarySupport : Bool}

@[simp] theorem not_holdBinary_nil : ¬ HoldBinary binarySupport [] := by
  simp [HoldBinary]

theorem holdBinary_append (vs ws : List Value) :
    HoldBinary binarySupport (vs ++ ws) ↔ HoldBinary binarySupport vs ∨ HoldBinary binarySupport ws := by
  simp only [HoldBinary, List.mem_append, or_and_right, exists_or]

theorem holdBinary_cons (v : Value) (vs : List Value) :
    HoldBinary binarySupport (v :: vs) ↔ HoldBinary binarySupport [v] ∨ HoldBinary binarySupport vs :=
  holdBinary_append [v] vs

theorem holdBinary_unixFd {v : Value} (type : v.typeOf = .basic .unixFd) :
    HoldBinary binarySupport [v] :=
  ⟨v, List.mem_cons_self, v, .self v, .inl type⟩

theorem holdBinary_bytes (support : binarySupport = true) (items : List Value) :
    HoldBinary binarySupport [.array (.basic (.int .byte)) items] :=
  ⟨_, List.mem_cons_self, _, .self _, .inr ⟨support, rfl⟩⟩

theorem not_holdBinary_basic {v : Value} {b : Basic} (type : v.typeOf = .basic b) (other : b ≠ .unixFd) :
    ¬ HoldBinary binarySupport [v] := by
  rintro ⟨u, inside, w, contains, binary⟩
  rw [List.mem_singleton] at inside
  subst inside
  have same : w = u := by
    cases contains with
    | self => rfl
    | _ => simp at type
  rw [same, type] at binary
  simp [other] at binary

theorem holdBinary_variant (content : Value) :
    HoldBinary binarySupport [.variant content] ↔ HoldBinary binarySupport [content] := by
  constructor
  · rintro ⟨u, inside, w, contains, binary⟩
    rw [List.mem_singleton.mp inside] at contains
    cases contains with
    | self => simp at binary
    | variant inner => exact ⟨content, List.mem_cons_self, w, inner, binary⟩
  · rintro ⟨u, inside, w, contains, binary⟩
    rw [List.mem_singleton.mp inside] at contains
    exact ⟨_, List.mem_cons_self, w, .variant contains, binary⟩

theorem holdBinary_struct (fields : List Value) :
    HoldBinary binarySupport [.struct fields] ↔ HoldBinary binarySupport fields := by
  constructor
  · rintro ⟨u, inside, w, contains, binary⟩
    rw [List.mem_singleton.mp inside] at contains
    cases contains with
    | self => simp at binary
    | field among inner => exact ⟨_, among, w, inner, binary⟩
  · rintro ⟨u, inside, w, contains, binary⟩
    exact ⟨_, List.mem_cons_self, w, .field inside contains, binary⟩

theorem holdBinary_entry (key value : Value) :
    HoldBinary binarySupport [.entry key value] ↔ HoldBinary binarySupport [value] := by
  constructor
  · rintro ⟨u, inside, w, contains, binary⟩
    rw [List.mem_singleton.mp inside] at contains
    cases contains with
    | self => simp at binary
    | dictValue inner => exact ⟨value, List.mem_cons_self, w, inner, binary⟩
  · rintro ⟨u, inside, w, contains, binary⟩
    rw [List.mem_singleton.mp inside] at contains
    exact ⟨_, List.mem_cons_self, w, .dictValue contains, binary⟩

/-- An array that is not one of bytes is as binary as its elements. -/
theorem holdBinary_array {elem : Ty} (items : List Value)
    (other : ¬ (elem = .basic (.int .byte) ∧ binarySupport = true)) :
    HoldBinary binarySupport [.array elem items] ↔ HoldBinary binarySupport items := by
  constructor
  · rintro ⟨u, inside, w, contains, binary⟩
    rw [List.mem_singleton.mp inside] at contains
    cases contains with
    | self =>
        rcases binary with descriptor | ⟨support, bytes⟩
        · simp at descriptor
        · exact absurd ⟨by simpa using bytes, support⟩ other
    | element among inner => exact ⟨_, among, w, inner, binary⟩
  · rintro ⟨u, inside, w, contains, binary⟩
    exact ⟨_, List.mem_cons_self, w, .element inside contains, binary⟩

end HoldBinary

namespace DictsKeyed

theorem subset {vs ws : List Value} (keyed : DictsKeyed vs) (among : ws ⊆ vs) : DictsKeyed ws :=
  fun v inside => keyed v (among inside)

theorem content {content : Value} {vs : List Value} (keyed : DictsKeyed vs)
    (inside : Value.variant content ∈ vs) : DictsKeyed [content] := by
  intro v member elem items contains
  rw [List.mem_singleton.mp member] at contains
  exact keyed _ inside elem items (.variant contains)

theorem fields {fields vs : List Value} (keyed : DictsKeyed vs) (inside : Value.struct fields ∈ vs) :
    DictsKeyed fields := fun _ member elem items contains =>
  keyed _ inside elem items (.field member contains)

theorem elements {elem : Ty} {items vs : List Value} (keyed : DictsKeyed vs)
    (inside : Value.array elem items ∈ vs) : DictsKeyed items := fun _ member elem' items' contains =>
  keyed _ inside elem' items' (.element member contains)

theorem value {key value : Value} {vs : List Value} (keyed : DictsKeyed vs)
    (inside : Value.entry key value ∈ vs) : DictsKeyed [value] := by
  intro v member elem items contains
  rw [List.mem_singleton.mp member] at contains
  exact keyed _ inside elem items (.dictValue contains)

end DictsKeyed

/-! ### Containers that were entered -/

theorem Value.frame?_variant {v : Value} {contents : Str} {frame : ReadFrame}
    (shape : v.frame? .variant contents = some frame) :
    ∃ content, v = .variant content ∧ frame = ⟨false, [content]⟩ := by
  cases v with
  | variant content =>
      rw [frame?] at shape
      split at shape
      · exact ⟨content, rfl, (Option.some.inj shape).symm⟩
      · contradiction
  | _ => cases shape

theorem Value.frame?_struct {v : Value} {contents : Str} {frame : ReadFrame}
    (shape : v.frame? .struct contents = some frame) :
    ∃ fields, v = .struct fields ∧ frame = ⟨false, fields⟩ := by
  cases v with
  | struct fields =>
      rw [frame?] at shape
      split at shape
      · exact ⟨fields, rfl, (Option.some.inj shape).symm⟩
      · contradiction
  | _ => cases shape

theorem Value.frame?_array {v : Value} {contents : Str} {frame : ReadFrame}
    (shape : v.frame? .array contents = some frame) :
    ∃ elem items, v = .array elem items ∧ elem.text = contents ∧ frame = ⟨true, items⟩ := by
  cases v with
  | array elem items =>
      rw [frame?] at shape
      split at shape
      · rename_i text
        exact ⟨elem, items, rfl, text, (Option.some.inj shape).symm⟩
      · contradiction
  | _ => cases shape

theorem Value.frame?_dictEntry {v : Value} {contents : Str} {frame : ReadFrame}
    (shape : v.frame? .dictEntry contents = some frame) :
    ∃ key value, v = .entry key value ∧ key.typeOf.text ++ value.typeOf.text = contents ∧
      frame = ⟨false, [key, value]⟩ := by
  cases v with
  | entry key value =>
      rw [frame?] at shape
      split at shape
      · rename_i text
        exact ⟨key, value, rfl, text, (Option.some.inj shape).symm⟩
      · contradiction
  | _ => cases shape

end Dbus

namespace Dbus2Http.Message2Json

open Cxx (Str Run orThrow_eq_ok charAt cStr substr substrFrom)
open Dbus (IntTy Basic Ty Value Cursor ReadFrame ContainerKind MessageReader LawfulReader HoldBinary
  DictsKeyed dictKeys)

/-! ### Binary nodes -/

theorem containsBinaries_array (items : List Json) :
    containsBinaries (.array items) = true ↔ ∃ item ∈ items, containsBinaries item = true := by
  rw [containsBinaries]
  induction items with
  | nil => simp [containsBinaries.itemsContain]
  | cons item items ih => simp [containsBinaries.itemsContain, ih]

theorem containsBinaries_object (members : List (Str × Json)) :
    containsBinaries (.object members) = true ↔ ∃ member ∈ members, containsBinaries member.2 = true := by
  rw [containsBinaries]
  induction members with
  | nil => simp [containsBinaries.membersContain]
  | cons member members ih =>
      obtain ⟨key, value⟩ := member
      rw [containsBinaries.membersContain, Bool.or_eq_true, ih, List.exists_mem_cons_iff]

/-- Under distinct names no value is lost, and so no binary one. -/
theorem containsBinaries_ofAssignments {members : List (Str × Json)}
    (distinct : (members.map Prod.fst).Nodup) :
    containsBinaries (Json.ofAssignments members) = true ↔
      ∃ member ∈ members, containsBinaries member.2 = true := by
  cases members with
  | nil => simp [Json.ofAssignments, containsBinaries]
  | cons first others =>
      have perm : (OrderedMap.insertAll (first :: others) []).Perm ([] ++ first :: others) :=
        OrderedMap.insertAll_perm distinct
      change containsBinaries (.object _) = true ↔ _
      rw [containsBinaries_object]
      constructor
      · rintro ⟨member, inside, binary⟩
        exact ⟨member, perm.mem_iff.mp inside, binary⟩
      · rintro ⟨member, inside, binary⟩
        exact ⟨member, perm.mem_iff.mpr inside, binary⟩

theorem containsBinaries_ofInt (t : IntTy) (n : t.Val) : containsBinaries (ofInt t n) = false := by
  rw [ofInt]
  split <;> rfl

theorem containsBinaries_variable (env : Env) (b : Basic) (answer : Option Value) :
    containsBinaries (env.variable b answer) = false := by
  cases answer with
  | none =>
      cases b with
      | int t => exact containsBinaries_ofInt t _
      | _ => rfl
  | some v =>
      cases v with
      | int t n => exact containsBinaries_ofInt t n
      | _ => rfl

/-- The JSON value is as binary as the values. -/
def Agree (env : Env) (json : Json) (vs : List Value) : Prop :=
  containsBinaries json = true ↔ HoldBinary env.config.binarySupport vs

theorem agree_each {env : Env} {vs : List Value} {js : List Json}
    (each : List.Forall₂ (fun v json => Agree env json [v]) vs js) :
    (∃ json ∈ js, containsBinaries json = true) ↔ HoldBinary env.config.binarySupport vs := by
  induction each with
  | nil => simp
  | @cons v json vs js first others ih =>
      rw [List.exists_mem_cons_iff, ih, Dbus.holdBinary_cons]
      exact or_congr_left first

/-- An array that is not one of bytes. -/
theorem agree_array {env : Env} {elem : Ty} {items : List Value} {js : List Json}
    (other : ¬ (elem = .basic (.int .byte) ∧ env.config.binarySupport = true))
    (each : List.Forall₂ (fun v json => Agree env json [v]) items js) :
    Agree env (.array js) [.array elem items] := by
  rw [Agree, containsBinaries_array, agree_each each]
  exact (Dbus.holdBinary_array items other).symm

/-! ### What a call takes from the message -/

/-- The values have been read from the innermost container. -/
def Took (c : Cursor) (vs : List Value) (c' : Cursor) : Prop :=
  ∃ rest, c.top.rest = vs ++ rest ∧ c' = c.withRest rest

/-- The call has found the end of an array. -/
def Ended (c c' : Cursor) : Prop :=
  c.top.rest = [] ∧ c.top.inArray = true ∧ c' = { c with good := false }

theorem took_nil (c : Cursor) : Took c [] c := ⟨c.top.rest, rfl, rfl⟩

theorem Took.append {c c' c'' : Cursor} {vs ws : List Value} (first : Took c vs c')
    (second : Took c' ws c'') : Took c (vs ++ ws) c'' := by
  obtain ⟨rest, ahead, rfl⟩ := first
  obtain ⟨rest', ahead', rfl⟩ := second
  have later : rest = ws ++ rest' := ahead'
  exact ⟨rest', by rw [ahead, later, List.append_assoc], rfl⟩

theorem Took.good {c c' : Cursor} {vs : List Value} (took : Took c vs c') : c'.good = c.good := by
  obtain ⟨rest, _, rfl⟩ := took
  rfl

theorem Took.inArray {c c' : Cursor} {vs : List Value} (took : Took c vs c') :
    c'.top.inArray = c.top.inArray := by
  obtain ⟨rest, _, rfl⟩ := took
  rfl

theorem Took.keyed {c c' : Cursor} {vs : List Value} (took : Took c vs c')
    (keyed : DictsKeyed c.top.rest) : DictsKeyed c'.top.rest := by
  obtain ⟨rest, ahead, rfl⟩ := took
  apply keyed.subset
  rw [ahead]
  exact List.subset_append_right vs rest

theorem enterContainer_cases {c d : Cursor} {kind : ContainerKind} {contents : Str}
    (entered : enterContainer kind c contents = .ok d) :
    (∃ v rest frame, c.top.rest = v :: rest ∧ v.frame? kind (cStr contents) = some frame ∧
        d = c.inside frame rest) ∨ Ended c d :=
  Cursor.enterContainer_eq_some.mp (orThrow_eq_ok.mp entered)

/-- A container that is left has been read to its end. -/
theorem Took.whole {c d e : Cursor} {frame : ReadFrame} {taken rest : List Value}
    {kind : ContainerKind} (took : Took (c.inside frame rest) taken d)
    (left : exitContainer kind d = .ok e) : taken = frame.rest ∧ e = c.withRest rest := by
  obtain ⟨remaining, ahead, rfl⟩ := took
  obtain ⟨empty, _⟩ := Cursor.exitContainer_eq_some.mp (orThrow_eq_ok.mp left)
  have none : remaining = [] := empty
  rw [none, exitContainer_cursor] at left
  rw [none, List.append_nil] at ahead
  exact ⟨ahead.symm, (Except.ok.inj left).symm⟩

/-- What a call does: it reads values that are as binary as what it returns, or it has found the
end of an array. -/
def Outcome (env : Env) (c : Cursor) (json : Json) (c' : Cursor) : Prop :=
  (∃ v, Took c [v] c' ∧ Agree env json [v]) ∨ Ended c c'

/-- What is shown of all calls at once: outside an array they read values that are as binary as
what they return, and a call for one code reads one value or finds the end of an array. -/
structure Sound (env : Env) (extract : Extractor Cursor) : Prop where
  several : ∀ {c sig json c'}, c.good = true → c.top.inArray = false → DictsKeyed c.top.rest →
    extract c sig = .ok (json, c') → ∃ vs, Took c vs c' ∧ Agree env json vs
  code : ∀ {c x json c'}, c.good = true → DictsKeyed c.top.rest →
    extract c [x] = .ok (json, c') → Outcome env c json c'

section Pieces

variable {env : Env} {extract : Extractor Cursor} {c c' : Cursor} {json : Json}

/-! ### One value -/

theorem answer_outcome {b : Basic} (other : b ≠ .unixFd) {answer : Option Value}
    (done : MessageReader.read c b = some (answer, c')) :
    Outcome env c (env.variable b answer) c' := by
  rcases Cursor.read_eq_some.mp done with ⟨v, rest, ahead, type, _, moved⟩ | ⟨empty, inArray, _, flagged⟩
  · refine .inl ⟨v, ⟨rest, ahead, moved⟩, ?_⟩
    refine iff_of_false ?_ (Dbus.not_holdBinary_basic type other)
    rw [containsBinaries_variable]
    exact Bool.false_ne_true
  · exact .inr ⟨empty, inArray, flagged⟩

theorem read_outcome {b : Basic} (other : b ≠ .unixFd) (done : read env b c = .ok (json, c')) :
    Outcome env c json c' := by
  rw [read] at done
  split at done
  · rename_i answer message found
    cases done
    exact answer_outcome other found
  · exact absurd done (Cxx.throwExn_ne_ok _ _ _)

theorem extractBool_outcome (done : extractBool env c = .ok (json, c')) : Outcome env c json c' := by
  obtain ⟨⟨answer, message⟩, found, same⟩ := Cxx.bind_eq_ok.mp done
  cases same
  exact answer_outcome Basic.noConfusion (orThrow_eq_ok.mp found)

/-- No descriptor is returned at the end of an array. -/
theorem extractUnixFd_outcome (done : extractUnixFd env c = .ok (json, c')) : Outcome env c json c' := by
  obtain ⟨⟨answer, message⟩, found, done⟩ := Cxx.bind_eq_ok.mp done
  obtain ⟨binaries, read, same⟩ := Cxx.bind_eq_ok.mp done
  cases same
  rcases Cursor.read_eq_some.mp (orThrow_eq_ok.mp found) with
    ⟨v, rest, ahead, type, _, moved⟩ | ⟨_, _, missing, _⟩
  · exact .inl ⟨v, ⟨rest, ahead, moved⟩, iff_of_true rfl (Dbus.holdBinary_unixFd type)⟩
  · rw [missing, readDescriptor_none] at read
    exact absurd read (Cxx.throwExn_ne_ok _ _ _)

theorem extractVariant_outcome (sound : Sound env extract) (good : c.good = true)
    (keyed : DictsKeyed c.top.rest) (done : extractVariant extract c = .ok (json, c')) :
    Outcome env c json c' := by
  rw [extractVariant] at done
  rcases peek : MessageReader.peekType c with ⟨sig, elementSig?⟩
  simp only [peek] at done
  split at done
  · rename_i variant
    cases elementSig? with
    | none => exact absurd done (Cxx.throwExn_ne_ok _ _ _)
    | some elementSig =>
        obtain ⟨d, entered, done⟩ := Cxx.bind_eq_ok.mp done
        obtain ⟨⟨value, e⟩, inner, done⟩ := Cxx.bind_eq_ok.mp done
        obtain ⟨f, left, same⟩ := Cxx.bind_eq_ok.mp done
        cases same
        rcases enterContainer_cases entered with ⟨v, rest, frame, ahead, shape, rfl⟩ | ⟨empty, _, _⟩
        · obtain ⟨content, rfl, rfl⟩ := Value.frame?_variant shape
          have inside : (c.inside ⟨false, [content]⟩ rest).good = true := good
          have held : DictsKeyed [content] := keyed.content (by rw [ahead]; exact List.mem_cons_self)
          obtain ⟨vs, took, agree⟩ := sound.several inside rfl held inner
          obtain ⟨rfl, rfl⟩ := took.whole left
          have object : containsBinaries (.object [("value".toList, value),
              ("variant".toList, .string elementSig)]) = true ↔ containsBinaries value = true := by
            rw [containsBinaries_object]
            simp [containsBinaries]
          refine .inl ⟨_, ⟨rest, ahead, rfl⟩, ?_⟩
          exact object.trans (agree.trans (Dbus.holdBinary_variant content).symm)
        · have ended : MessageReader.peekType c = ('\x00', none) := by
            change c.peekType = _
            rw [Cursor.peekType, empty]
          rw [ended] at peek
          cases peek
  · exact absurd done (Cxx.throwExn_ne_ok _ _ _)

/-- The codes that are a piece of their own. -/
theorem extractPiece_plain {fuel : Nat} {x : Char} (known : x ∈ SignatureUtils.plainCodes)
    (sound : Sound env extract) (good : c.good = true) (keyed : DictsKeyed c.top.rest)
    (done : extractPiece env fuel extract c [x] = .ok (json, c')) : Outcome env c json c' := by
  rw [extractPiece] at done
  split at done
  · exact extractBool_outcome done
  iterate 9 exact read_outcome Basic.noConfusion done
  · exact extractVariant_outcome sound good keyed done
  · rename_i front
    have same : x = '(' := front
    rw [same] at known
    exact absurd known (by decide)
  · rename_i front
    have same : x = 'a' := front
    rw [same] at known
    exact absurd known (by decide)
  · exact extractUnixFd_outcome done
  all_goals exact absurd done (Cxx.throwExn_ne_ok _ _ _)

theorem extractStruct_took (sound : Sound env extract) (good : c.good = true)
    (outside : c.top.inArray = false) (keyed : DictsKeyed c.top.rest) {sig : Str}
    (done : extractStruct extract c sig = .ok (json, c')) :
    ∃ vs, Took c vs c' ∧ Agree env json vs := by
  obtain ⟨elementSig, _, done⟩ := Cxx.bind_eq_ok.mp done
  obtain ⟨d, entered, done⟩ := Cxx.bind_eq_ok.mp done
  obtain ⟨⟨value, e⟩, inner, done⟩ := Cxx.bind_eq_ok.mp done
  obtain ⟨f, left, same⟩ := Cxx.bind_eq_ok.mp done
  cases same
  rcases enterContainer_cases entered with ⟨v, rest, frame, ahead, shape, rfl⟩ | ⟨_, inArray, _⟩
  · obtain ⟨fields, rfl, rfl⟩ := Value.frame?_struct shape
    have inside : (c.inside ⟨false, fields⟩ rest).good = true := good
    have held : DictsKeyed fields := keyed.fields (by rw [ahead]; exact List.mem_cons_self)
    obtain ⟨vs, took, agree⟩ := sound.several inside rfl held inner
    obtain ⟨same, rfl⟩ := took.whole left
    rw [same] at agree
    refine ⟨[.struct fields], ⟨rest, ahead, rfl⟩, ?_⟩
    exact agree.trans (Dbus.holdBinary_struct fields).symm
  · rw [outside] at inArray
    contradiction

/-! ### Loops over arrays -/

/-- The loop has read the array it is in to its end, and found the end. -/
def Exhausted (d d' : Cursor) : Prop := d' = { d.withRest [] with good := false }

theorem Ended.exhausted {d d' : Cursor} (ended : Ended d d') : d.top.rest = [] ∧ Exhausted d d' := by
  obtain ⟨empty, _, rfl⟩ := ended
  refine ⟨empty, ?_⟩
  rw [Exhausted, Cursor.withRest, ← empty]

theorem Took.exhausted {d e d' : Cursor} {vs : List Value} (took : Took d vs e)
    (exhausted : Exhausted e d') : Exhausted d d' := by
  obtain ⟨rest, _, rfl⟩ := took
  exact exhausted

/-- What every array does after its loop. -/
theorem leave_exhausted {d' : Cursor} {items rest : List Value} (good : c.good = true)
    (exhausted : Exhausted (c.inside ⟨true, items⟩ rest) d')
    (left : exitContainer .array (MessageReader.clearFlags d') = .ok c') : c' = c.withRest rest := by
  rw [exhausted] at left
  have known := leaveArray good items rest
  exact Except.ok.inj (left.symm.trans known)

theorem extractElements_exhausted {x : Char} (sound : Sound env extract) {n : Nat} {d d' : Cursor}
    {result js : List Json} (good : d.good = true) (keyed : DictsKeyed d.top.rest)
    (done : extractElements extract [x] n d result = .ok (js, d')) :
    ∃ found, js = result ++ found ∧
      List.Forall₂ (fun v json => Agree env json [v]) d.top.rest found ∧ Exhausted d d' := by
  induction n generalizing d result with
  | zero => cases done
  | succ n ih =>
      obtain ⟨⟨value, e⟩, read, done⟩ := Cxx.bind_eq_ok.mp done
      rcases sound.code good keyed read with ⟨v, took, agree⟩ | ended
      · have flag : MessageReader.good e = true := took.good.trans good
        simp only [flag, ↓reduceIte] at done
        obtain ⟨found, rfl, each, exhausted⟩ := ih (took.good.trans good) (took.keyed keyed) done
        refine ⟨value :: found, by simp, ?_, took.exhausted exhausted⟩
        obtain ⟨rest, ahead, rfl⟩ := took
        rw [ahead]
        exact .cons agree each
      · have flag : MessageReader.good e = false := by rw [ended.2.2]; rfl
        simp only [flag, Bool.false_eq_true, ↓reduceIte] at done
        cases done
        obtain ⟨empty, exhausted⟩ := ended.exhausted
        exact ⟨[], by simp, by rw [empty]; exact .nil, exhausted⟩

theorem extractBytes_exhausted {n : Nat} {d d' : Cursor} {binaries bytes : List UInt8}
    (good : d.good = true) (done : extractBytes env n d binaries = .ok (bytes, d')) :
    Exhausted d d' := by
  induction n generalizing d binaries with
  | zero => cases done
  | succ n ih =>
      obtain ⟨⟨y, e⟩, read, done⟩ := Cxx.bind_eq_ok.mp done
      rcases read_outcome Basic.noConfusion read with ⟨v, took, _⟩ | ended
      · have flag : MessageReader.good e = true := took.good.trans good
        simp only [flag, ↓reduceIte] at done
        exact took.exhausted (ih (took.good.trans good) done)
      · have flag : MessageReader.good e = false := by rw [ended.2.2]; rfl
        simp only [flag, Bool.false_eq_true, ↓reduceIte] at done
        cases done
        exact ended.exhausted.2

theorem extractStructs_exhausted {elementSig : Str} (sound : Sound env extract) {n : Nat} {d d' : Cursor}
    {result js : List Json} (good : d.good = true) (keyed : DictsKeyed d.top.rest)
    (done : extractStructs extract elementSig n d result = .ok (js, d')) :
    ∃ found, js = result ++ found ∧
      List.Forall₂ (fun v json => Agree env json [v]) d.top.rest found ∧ Exhausted d d' := by
  induction n generalizing d result with
  | zero => cases done
  | succ n ih =>
      obtain ⟨e, entered, done⟩ := Cxx.bind_eq_ok.mp done
      rcases enterContainer_cases entered with ⟨v, rest, frame, ahead, shape, rfl⟩ | ended
      · obtain ⟨fields, rfl, rfl⟩ := Value.frame?_struct shape
        have inside : (d.inside ⟨false, fields⟩ rest).good = true := good
        have held : DictsKeyed fields := keyed.fields (by rw [ahead]; exact List.mem_cons_self)
        have flag : MessageReader.good (d.inside ⟨false, fields⟩ rest) = true := good
        simp only [flag, ↓reduceIte] at done
        obtain ⟨⟨value, e⟩, read, done⟩ := Cxx.bind_eq_ok.mp done
        obtain ⟨vs, took, agree⟩ := sound.several inside rfl held read
        have flag' : MessageReader.good e = true := took.good.trans inside
        simp only [flag', ↓reduceIte] at done
        obtain ⟨f, left, done⟩ := Cxx.bind_eq_ok.mp done
        obtain ⟨same, rfl⟩ := took.whole left
        rw [same] at agree
        have one : Took d [.struct fields] (d.withRest rest) := ⟨rest, ahead, rfl⟩
        obtain ⟨found, rfl, each, exhausted⟩ := ih (one.good.trans good) (one.keyed keyed) done
        refine ⟨value :: found, by simp, ?_, one.exhausted exhausted⟩
        rw [ahead]
        exact .cons (agree.trans (Dbus.holdBinary_struct fields).symm) each
      · have flag : MessageReader.good e = false := by rw [ended.2.2]; rfl
        simp only [flag, Bool.false_eq_true, ↓reduceIte] at done
        cases done
        obtain ⟨empty, exhausted⟩ := ended.exhausted
        exact ⟨[], by simp, by rw [empty]; exact .nil, exhausted⟩

end Pieces

/-! ### The loop over the entries of a dict -/

/-- What the loop has read of an entry whose key is a string or an integer. -/
structure EntryRead (env : Env) (elementSig : Str) (p : EntryPart) : Prop where
  key : p.keyJson = ofBasic p.key
  code : ∃ b, KeyCode b ∧ p.key.typeOf = .basic b ∧ elementSig.head? = some b.code
  value : Agree env p.valueJson [p.value]

theorem head_of_cStr {s rest : Str} {x : Char} (shape : cStr s = x :: rest) : s.head? = some x := by
  cases s with
  | nil => cases shape
  | cons y s =>
      rw [cStr, List.takeWhile_cons] at shape
      split at shape
      · rw [(List.cons.inj shape).1]
        rfl
      · cases shape

/-- A key is read into a variable of its own type. -/
theorem extractMessage_key {env : Env} {fuel : Nat} {b : Basic} (named : KeyCode b) {key value : Value}
    (type : key.typeOf = .basic b) {c c' : Cursor} {json : Json} (good : c.good = true)
    (ahead : c.top.rest = [key, value])
    (done : extractMessage env fuel c [b.code] = .ok (json, c')) :
    json = ofBasic key ∧ c' = c.withRest [value] := by
  cases fuel with
  | zero => cases done
  | succ fuel =>
      have reads := readsAt_scalar env fuel type named.scalar c [value] good ahead
      rw [List.map_singleton, Ty.texts_singleton, type, Ty.text_basic, done] at reads
      cases reads
      exact ⟨rfl, rfl⟩

/-- A round of the loop over the entries finds the end of the dict, or reads the next entry and
goes on behind it. -/
theorem extractEntries_cases {env : Env} {fuel : Nat} (sound : Sound env (extractMessage env fuel))
    {elementSig : Str} {n : Nat} {d d' : Cursor} {result json : Json} (good : d.good = true)
    (keyed : DictsKeyed d.top.rest)
    (keys : ∀ key ∈ dictKeys d.top.rest,
      key.typeOf = .basic .string ∨ ∃ t, key.typeOf = .basic (.int t))
    (done : extractEntries (extractMessage env fuel) elementSig (n + 1) d result = .ok (json, d')) :
    json = result ∧ Ended d d' ∨
      ∃ p : EntryPart, ∃ rest next, d.top.rest = p.entry :: rest ∧ EntryRead env elementSig p ∧
        result.setMember p.keyJson.keyText p.valueJson = .ok next ∧
        extractEntries (extractMessage env fuel) elementSig n (d.withRest rest) next =
          .ok (json, d') := by
  obtain ⟨e, entered, done⟩ := Cxx.bind_eq_ok.mp done
  rcases enterContainer_cases entered with ⟨v, rest, frame, ahead, shape, rfl⟩ | ended
  · obtain ⟨key, value, rfl, text, rfl⟩ := Value.frame?_dictEntry shape
    have inside : (d.inside ⟨false, [key, value]⟩ rest).good = true := good
    have flag : MessageReader.good (d.inside ⟨false, [key, value]⟩ rest) = true := good
    simp only [flag, ↓reduceIte] at done
    obtain ⟨b, named, type⟩ : ∃ b, KeyCode b ∧ key.typeOf = .basic b := by
      have among : key ∈ dictKeys d.top.rest := by
        rw [ahead]
        exact List.mem_cons_self
      rcases keys key among with string | ⟨t, int⟩
      · exact ⟨.string, .inl rfl, string⟩
      · exact ⟨.int t, .inr ⟨t, rfl⟩, int⟩
    -- the signature of the key is the first code of the entry's
    rw [type, Ty.text_basic, List.singleton_append] at text
    obtain ⟨tail, rfl⟩ := List.head?_eq_some_iff.mp (head_of_cStr text.symm)
    obtain ⟨keySig, cut, done⟩ := Cxx.bind_eq_ok.mp done
    have code : keySig = [b.code] := (Cxx.substr_eq_ok.mp cut).2.symm
    rw [code] at done
    obtain ⟨⟨keyJson, e⟩, readKey, done⟩ := Cxx.bind_eq_ok.mp done
    obtain ⟨rfl, rfl⟩ := extractMessage_key named type inside rfl readKey
    obtain ⟨valueSig, _, done⟩ := Cxx.bind_eq_ok.mp done
    obtain ⟨⟨valueJson, f⟩, readValue, done⟩ := Cxx.bind_eq_ok.mp done
    obtain ⟨next, set, done⟩ := Cxx.bind_eq_ok.mp done
    obtain ⟨g, left, done⟩ := Cxx.bind_eq_ok.mp done
    have first : Took (d.inside ⟨false, [key, value]⟩ rest) [key]
        ((d.inside ⟨false, [key, value]⟩ rest).withRest [value]) := ⟨[value], rfl, rfl⟩
    have held : DictsKeyed [value] := keyed.value (by rw [ahead]; exact List.mem_cons_self)
    obtain ⟨vs, took, agree⟩ := sound.several (first.good.trans inside) rfl held readValue
    obtain ⟨same, rfl⟩ := (first.append took).whole left
    have one : vs = [value] := (List.cons.inj same).2
    rw [one] at agree
    exact .inr ⟨⟨key, value, ofBasic key, valueJson⟩, rest, next, ahead,
      ⟨rfl, ⟨b, named, type, rfl⟩, agree⟩, set, done⟩
  · have flag : MessageReader.good e = false := by rw [ended.2.2]; rfl
    simp only [flag, Bool.false_eq_true, ↓reduceIte] at done
    cases done
    exact .inl ⟨rfl, ended⟩

theorem extractEntries_exhausted {env : Env} {fuel : Nat} (sound : Sound env (extractMessage env fuel))
    {elementSig : Str} {n : Nat} {d d' : Cursor} {members : List (Str × Json)} {json : Json}
    (good : d.good = true) (keyed : DictsKeyed d.top.rest)
    (keys : ∀ key ∈ dictKeys d.top.rest,
      key.typeOf = .basic .string ∨ ∃ t, key.typeOf = .basic (.int t))
    (done : extractEntries (extractMessage env fuel) elementSig n d (Json.ofAssignments members) =
      .ok (json, d')) :
    ∃ parts : List EntryPart, d.top.rest = parts.map EntryPart.entry ∧
      json = Json.ofAssignments (members ++ parts.map EntryPart.member) ∧
      (∀ p ∈ parts, EntryRead env elementSig p) ∧ Exhausted d d' := by
  induction n generalizing d members with
  | zero => cases done
  | succ n ih =>
      rcases extractEntries_cases sound good keyed keys done with
        ⟨rfl, ended⟩ | ⟨p, rest, next, ahead, read, set, done⟩
      · obtain ⟨empty, exhausted⟩ := ended.exhausted
        exact ⟨[], by rw [empty]; rfl, by simp, by simp, exhausted⟩
      · rw [Json.setMember_ofAssignments] at set
        cases set
        have entry : Took d [p.entry] (d.withRest rest) := ⟨rest, ahead, rfl⟩
        have others : ∀ key ∈ dictKeys rest,
            key.typeOf = .basic .string ∨ ∃ t, key.typeOf = .basic (.int t) := by
          intro key among
          apply keys key
          rw [ahead]
          exact List.mem_cons_of_mem _ among
        obtain ⟨parts, shape, rfl, each, exhausted⟩ :=
          ih (entry.good.trans good) (entry.keyed keyed) others done
        have shape : rest = parts.map EntryPart.entry := shape
        refine ⟨p :: parts, ?_, ?_, ?_, entry.exhausted exhausted⟩
        · rw [ahead, shape, List.map_cons]
        · rw [List.append_assoc]
          rfl
        · exact List.forall_mem_cons.mpr ⟨read, each⟩

theorem dictKeys_entries (parts : List EntryPart) :
    dictKeys (parts.map EntryPart.entry) = parts.map EntryPart.key := by
  induction parts with
  | nil => rfl
  | cons p parts ih =>
      rw [List.map_cons, List.map_cons, ← ih]
      rfl

/-- Distinct keys of one type make distinct names. -/
theorem member_names_distinct {env : Env} {elementSig : Str} {parts : List EntryPart}
    (each : ∀ p ∈ parts, EntryRead env elementSig p) (distinct : (parts.map EntryPart.key).Nodup) :
    ((parts.map EntryPart.member).map Prod.fst).Nodup := by
  have names : (parts.map EntryPart.member).map Prod.fst =
      (parts.map EntryPart.key).map fun key => (ofBasic key).keyText := by
    rw [List.map_map, List.map_map]
    apply List.map_congr_left
    intro p inside
    change p.keyJson.keyText = (ofBasic p.key).keyText
    rw [(each p inside).key]
  rw [names]
  apply distinct.map_on
  intro k inside l inside' same
  obtain ⟨p, member, rfl⟩ := List.mem_map.mp inside
  obtain ⟨q, member', rfl⟩ := List.mem_map.mp inside'
  obtain ⟨b, named, pType, pCode⟩ := (each p member).code
  obtain ⟨b', _, qType, qCode⟩ := (each q member').code
  have codes : (Ty.basic b').text = (Ty.basic b).text := by
    rw [Ty.text_basic, Ty.text_basic, Option.some.inj (qCode.symm.trans pCode)]
  rw [Ty.text_injective codes] at qType
  exact named.text_injective pType qType same

theorem holdBinary_entries {binarySupport : Bool} (parts : List EntryPart) :
    HoldBinary binarySupport (parts.map EntryPart.entry) ↔
      ∃ p ∈ parts, HoldBinary binarySupport [p.value] := by
  induction parts with
  | nil => simp
  | cons p parts ih =>
      rw [List.map_cons, Dbus.holdBinary_cons, ih, List.exists_mem_cons_iff]
      exact or_congr_left (Dbus.holdBinary_entry p.key p.value)

/-! ### Arrays -/

section Arrays

variable {env : Env} {fuel n : Nat} {c c' : Cursor} {sig : Str} {json : Json}

theorem head_of_substrFrom {s t : Str} {i : Nat} {x : Char} (here : charAt s i = x)
    (visible : x ≠ '\x00') (cut : substrFrom s i = .ok t) : t.head? = some x := by
  rw [← (Cxx.substrFrom_eq_ok.mp cut).2, List.head?_drop]
  rw [charAt] at here
  cases found : s[i]? with
  | none =>
      rw [found] at here
      exact absurd here.symm visible
  | some y =>
      rw [found] at here
      exact congrArg some here

/-- The array ahead, with what is known of its element type. -/
theorem enter_array {c d : Cursor} {contents : Str} (outside : c.top.inArray = false)
    (entered : enterContainer .array c contents = .ok d) :
    ∃ elem items rest, c.top.rest = .array elem items :: rest ∧ elem.text = cStr contents ∧
      d = c.inside ⟨true, items⟩ rest := by
  rcases enterContainer_cases entered with ⟨v, rest, frame, ahead, shape, rfl⟩ | ⟨_, inArray, _⟩
  · obtain ⟨elem, items, rfl, text, rfl⟩ := Value.frame?_array shape
    exact ⟨elem, items, rest, ahead, text, rfl⟩
  · rw [outside] at inArray
    contradiction

/-- The contents of an array of bytes begin with their code. -/
theorem not_bytes {elem : Ty} {contents : Str} {x : Char} (text : elem.text = cStr contents)
    (head : contents.head? = some x) (other : x ≠ 'y') : elem ≠ .basic (.int .byte) := by
  rintro rfl
  have bytes : contents.head? = some 'y' := head_of_cStr text.symm
  rw [bytes] at head
  exact other (Option.some.inj head).symm

/-- A dict becomes as binary as its values. -/
theorem agree_dict {elem : Ty} {elementSig : Str} {parts : List EntryPart}
    (notBytes : elem ≠ .basic (.int .byte)) (each : ∀ p ∈ parts, EntryRead env elementSig p)
    (distinct : (parts.map EntryPart.key).Nodup) :
    Agree env (Json.ofAssignments (parts.map EntryPart.member))
      [.array elem (parts.map EntryPart.entry)] := by
  calc
    containsBinaries (Json.ofAssignments (parts.map EntryPart.member)) = true ↔
        ∃ member ∈ parts.map EntryPart.member, containsBinaries member.2 = true :=
      containsBinaries_ofAssignments (member_names_distinct each distinct)
    _ ↔ ∃ p ∈ parts, containsBinaries p.valueJson = true := by
      simp [EntryPart.member]
    _ ↔ ∃ p ∈ parts, HoldBinary env.config.binarySupport [p.value] :=
      exists_congr fun p => and_congr_right fun inside => (each p inside).value
    _ ↔ HoldBinary env.config.binarySupport (parts.map EntryPart.entry) :=
      (holdBinary_entries parts).symm
    _ ↔ HoldBinary env.config.binarySupport [.array elem (parts.map EntryPart.entry)] :=
      (Dbus.holdBinary_array _ fun both => notBytes both.1).symm

/-- An array that is entered, gone through to its end by a loop, and left. -/
theorem array_took {d e : Cursor} {contents : Str} (good : c.good = true)
    (outside : c.top.inArray = false) (keyed : DictsKeyed c.top.rest)
    (entered : enterContainer .array c contents = .ok d)
    (left : exitContainer .array (MessageReader.clearFlags e) = .ok c')
    (loop : ∀ elem, elem.text = cStr contents → d.good = true → DictsKeyed d.top.rest →
      DictsKeyed [.array elem d.top.rest] →
      Exhausted d e ∧ Agree env json [.array elem d.top.rest]) :
    ∃ vs, Took c vs c' ∧ Agree env json vs := by
  obtain ⟨elem, items, rest, ahead, text, rfl⟩ := enter_array outside entered
  have whole : DictsKeyed [.array elem items] := by
    apply keyed.subset
    rw [ahead]
    simp
  obtain ⟨exhausted, agree⟩ := loop elem text good (whole.elements List.mem_cons_self) whole
  rw [leave_exhausted good exhausted left]
  exact ⟨[.array elem items], ⟨rest, ahead, rfl⟩, agree⟩

theorem extractDict_took (sound : Sound env (extractMessage env fuel)) (good : c.good = true)
    (outside : c.top.inArray = false) (keyed : DictsKeyed c.top.rest) (dict : charAt sig 1 = '{')
    (done : extractDict n (extractMessage env fuel) c sig = .ok (json, c')) :
    ∃ vs, Took c vs c' ∧ Agree env json vs := by
  obtain ⟨arraySig, cut, done⟩ := Cxx.bind_eq_ok.mp done
  obtain ⟨elementSig, _, done⟩ := Cxx.bind_eq_ok.mp done
  obtain ⟨d, entered, done⟩ := Cxx.bind_eq_ok.mp done
  obtain ⟨⟨result, e⟩, looped, done⟩ := Cxx.bind_eq_ok.mp done
  obtain ⟨f, left, same⟩ := Cxx.bind_eq_ok.mp done
  cases same
  apply array_took good outside keyed entered left
  intro elem text inside held whole
  obtain ⟨keys, distinct⟩ := whole _ List.mem_cons_self _ _ (.self _)
  have notBytes := not_bytes text (head_of_substrFrom dict (by decide) cut) (by decide)
  have start : extractEntries (extractMessage env fuel) elementSig n d (Json.ofAssignments []) =
      .ok (json, e) := looped
  obtain ⟨parts, shape, rfl, each, exhausted⟩ := extractEntries_exhausted sound inside held keys start
  rw [shape, dictKeys_entries] at distinct
  rw [shape]
  exact ⟨exhausted, agree_dict notBytes each distinct⟩

theorem extractStructArray_took (sound : Sound env (extractMessage env fuel)) (good : c.good = true)
    (outside : c.top.inArray = false) (keyed : DictsKeyed c.top.rest) (structs : charAt sig 1 = '(')
    (done : extractStructArray n (extractMessage env fuel) c sig = .ok (json, c')) :
    ∃ vs, Took c vs c' ∧ Agree env json vs := by
  obtain ⟨arraySig, cut, done⟩ := Cxx.bind_eq_ok.mp done
  obtain ⟨elementSig, _, done⟩ := Cxx.bind_eq_ok.mp done
  obtain ⟨d, entered, done⟩ := Cxx.bind_eq_ok.mp done
  obtain ⟨⟨result, e⟩, looped, done⟩ := Cxx.bind_eq_ok.mp done
  obtain ⟨f, left, same⟩ := Cxx.bind_eq_ok.mp done
  cases same
  apply array_took good outside keyed entered left
  intro elem text inside held _
  have notBytes := not_bytes text (head_of_substrFrom structs (by decide) cut) (by decide)
  obtain ⟨found, rfl, each, exhausted⟩ := extractStructs_exhausted sound inside held looped
  exact ⟨exhausted, agree_array (fun both => notBytes both.1) each⟩

theorem extractByteArray_took (binary : env.config.binarySupport = true) (good : c.good = true)
    (outside : c.top.inArray = false) (keyed : DictsKeyed c.top.rest)
    (done : extractByteArray env n c = .ok (json, c')) :
    ∃ vs, Took c vs c' ∧ Agree env json vs := by
  obtain ⟨d, entered, done⟩ := Cxx.bind_eq_ok.mp done
  obtain ⟨⟨bytes, e⟩, looped, done⟩ := Cxx.bind_eq_ok.mp done
  obtain ⟨f, left, same⟩ := Cxx.bind_eq_ok.mp done
  cases same
  apply array_took good outside keyed entered left
  intro elem text inside _ _
  have isByte : elem = .basic (.int .byte) := Ty.text_injective text
  rw [isByte]
  exact ⟨extractBytes_exhausted inside looped, iff_of_true rfl (Dbus.holdBinary_bytes binary _)⟩

theorem extractPlainArray_took {x : Char} (sound : Sound env (extractMessage env fuel))
    (good : c.good = true) (outside : c.top.inArray = false) (keyed : DictsKeyed c.top.rest)
    (notBytes : ¬ (['a', x] = "ay".toList ∧ env.config.binarySupport = true))
    (done : extractPlainArray n (extractMessage env fuel) c ['a', x] = .ok (json, c')) :
    ∃ vs, Took c vs c' ∧ Agree env json vs := by
  obtain ⟨elementSig, cut, done⟩ := Cxx.bind_eq_ok.mp done
  obtain ⟨d, entered, done⟩ := Cxx.bind_eq_ok.mp done
  obtain ⟨⟨result, e⟩, looped, done⟩ := Cxx.bind_eq_ok.mp done
  obtain ⟨f, left, same⟩ := Cxx.bind_eq_ok.mp done
  cases same
  have code : elementSig = [x] := (Cxx.substrFrom_eq_ok.mp cut).2.symm
  rw [code] at entered looped
  apply array_took good outside keyed entered left
  intro elem text inside held _
  have other : ¬ (elem = .basic (.int .byte) ∧ env.config.binarySupport = true) := by
    rintro ⟨rfl, binary⟩
    have byte : [x].head? = some 'y' := head_of_cStr text.symm
    apply notBytes
    rw [Option.some.inj byte]
    exact ⟨rfl, binary⟩
  obtain ⟨found, rfl, each, exhausted⟩ := extractElements_exhausted sound inside held looped
  exact ⟨exhausted, agree_array other each⟩

end Arrays

/-! ### Every call -/

theorem Outcome.took {env : Env} {c c' : Cursor} {json : Json} (outcome : Outcome env c json c')
    (outside : c.top.inArray = false) : ∃ vs, Took c vs c' ∧ Agree env json vs := by
  rcases outcome with ⟨v, took, agree⟩ | ⟨_, inArray, _⟩
  · exact ⟨[v], took, agree⟩
  · rw [outside] at inArray
    contradiction

theorem extractPiece_took {env : Env} {fuel n : Nat} {c c' : Cursor} {sig : Str} {json : Json}
    (sound : Sound env (extractMessage env fuel)) (good : c.good = true)
    (outside : c.top.inArray = false) (keyed : DictsKeyed c.top.rest)
    (piece : SignatureUtils.Piece sig)
    (done : extractPiece env n (extractMessage env fuel) c sig = .ok (json, c')) :
    ∃ vs, Took c vs c' ∧ Agree env json vs := by
  cases piece with
  | plain known => exact (extractPiece_plain known sound good keyed done).took outside
  | struct closed =>
      obtain ⟨inner, rfl, _⟩ := closed
      exact extractStruct_took sound good outside keyed done
  | @array x notStruct notDict =>
      change extractArray env n (extractMessage env fuel) c ['a', x] = _ at done
      have second : charAt ['a', x] 1 = x := rfl
      rw [extractArray, second, if_neg notDict, if_neg notStruct] at done
      by_cases bytes : ['a', x] = "ay".toList ∧ env.config.binarySupport = true
      · rw [if_pos bytes] at done
        exact extractByteArray_took bytes.2 good outside keyed done
      · rw [if_neg bytes] at done
        exact extractPlainArray_took sound good outside keyed bytes done
  | structs closed =>
      obtain ⟨inner, rfl, _⟩ := closed
      exact extractStructArray_took sound good outside keyed rfl done
  | dict closed =>
      obtain ⟨inner, rfl, _⟩ := closed
      exact extractDict_took sound good outside keyed rfl done

/-- The pieces of a signature take their values one after the other. -/
theorem extractNext_took {env : Env} {extract : Extractor Cursor} (sound : Sound env extract)
    {sigs : List Str} {c c' : Cursor} {result js : List Json} (good : c.good = true)
    (outside : c.top.inArray = false) (keyed : DictsKeyed c.top.rest)
    (done : sigs.foldlM (extractNext extract) (result, c) = .ok (js, c')) :
    ∃ vs found, Took c vs c' ∧ js = result ++ found ∧
      ((∃ json ∈ found, containsBinaries json = true) ↔ HoldBinary env.config.binarySupport vs) := by
  induction sigs generalizing c result with
  | nil =>
      cases done
      exact ⟨[], [], took_nil _, by simp, by simp⟩
  | cons sig sigs ih =>
      rw [List.foldlM_cons, Cxx.bind_eq_ok] at done
      obtain ⟨state, first, done⟩ := done
      obtain ⟨⟨value, d⟩, read, same⟩ := Cxx.bind_eq_ok.mp first
      cases same
      obtain ⟨vs, took, agree⟩ := sound.several good outside keyed read
      obtain ⟨ws, found, later, rfl, binary⟩ :=
        ih (took.good.trans good) (took.inArray.trans outside) (took.keyed keyed) done
      refine ⟨vs ++ ws, value :: found, took.append later, by simp, ?_⟩
      rw [List.exists_mem_cons_iff, binary, Dbus.holdBinary_append]
      exact or_congr_left agree

theorem pieces_of_code {x : Char} {pieces : List Str} (split : SignatureUtils.split [x] = .ok pieces) :
    pieces = [[x]] ∧ x ∈ SignatureUtils.plainCodes := by
  obtain ⟨whole, known⟩ := SignatureUtils.split_eq_ok_iff.mp split
  obtain ⟨piece, others, rfl⟩ : ∃ piece others, pieces = piece :: others := by
    cases pieces with
    | nil => cases whole
    | cons piece others => exact ⟨piece, others, rfl⟩
  obtain ⟨y, front, rfl⟩ := List.exists_cons_of_ne_nil (known piece List.mem_cons_self).ne_nil
  obtain ⟨rfl, nothing⟩ := List.cons.inj whole
  obtain ⟨rfl, none⟩ := List.append_eq_nil_iff.mp nothing
  have last : others = [] := by
    cases others with
    | nil => rfl
    | cons other more =>
        have empty := (List.append_eq_nil_iff.mp none).1
        exact absurd empty (known other (by simp)).ne_nil
  refine ⟨by rw [last], ?_⟩
  have one := known [y] List.mem_cons_self
  generalize text : [y] = sig at one
  cases one with
  | plain plain => rwa [(List.cons.inj text).1]
  | struct closed =>
      obtain ⟨inner, rfl, _⟩ := closed
      simp at text
  | array => simp at text
  | structs closed =>
      obtain ⟨inner, rfl, _⟩ := closed
      simp at text
  | dict closed =>
      obtain ⟨inner, rfl, _⟩ := closed
      simp at text

theorem sound_extractMessage (env : Env) (fuel : Nat) : Sound env (extractMessage env fuel) := by
  induction fuel with
  | zero =>
      constructor
      · intro c sig json c' _ _ _ done
        cases done
      · intro c x json c' _ _ done
        cases done
  | succ fuel sound =>
      constructor
      · intro c sig json c' good outside keyed done
        obtain ⟨pieces, split, done⟩ := Cxx.bind_eq_ok.mp done
        obtain ⟨whole, known⟩ := SignatureUtils.split_eq_ok_iff.mp split
        by_cases several : 1 < pieces.length
        · rw [if_pos several] at done
          obtain ⟨⟨js, d⟩, folded, same⟩ := Cxx.bind_eq_ok.mp done
          cases same
          obtain ⟨vs, found, took, rfl, binary⟩ := extractNext_took sound good outside keyed folded
          refine ⟨vs, took, ?_⟩
          rw [Agree, containsBinaries_array]
          exact binary
        · rw [if_neg several] at done
          cases pieces with
          | nil =>
              rw [← whole] at done
              cases done
          | cons piece others =>
              have last : others = [] := by
                rw [List.length_cons] at several
                exact List.length_eq_zero_iff.mp (by omega)
              have same : sig = piece := by
                rw [← whole, last]
                simp
              rw [same] at done
              exact extractPiece_took sound good outside keyed (known piece List.mem_cons_self) done
      · intro c x json c' good keyed done
        obtain ⟨pieces, split, done⟩ := Cxx.bind_eq_ok.mp done
        obtain ⟨rfl, known⟩ := pieces_of_code split
        exact extractPiece_plain known sound good keyed done

/-! ### The encoding of the response -/

section Handler

variable {N R : Type} [Dbus.MessageWriter N] [MessageReader R]

theorem encodeResponse_contentType {text : WebService.JsonText} {response : Json}
    {encoded : WebService.Response} (done : WebService.encodeResponse text response = .ok encoded) :
    encoded.contentType = "application/json".toList ↔ containsBinaries response = false := by
  rw [WebService.encodeResponse] at done
  split at done
  · rename_i binary
    cases done
    rw [binary]
    exact iff_of_false (by simp) (by simp)
  · rename_i plain
    obtain ⟨content, _, same⟩ := Cxx.bind_eq_ok.mp done
    cases same
    exact iff_of_true rfl (by simpa using plain)

theorem encodeError_contentType {text : WebService.JsonText} {exn : Cxx.Exn}
    {encoded : WebService.Response} (done : WebService.encodeError text exn = .ok encoded) :
    encoded.contentType = "application/json".toList := by
  obtain ⟨j, _, done⟩ := Cxx.bind_eq_ok.mp done
  obtain ⟨content, _, same⟩ := Cxx.bind_eq_ok.mp done
  cases same
  rfl

/-- A response with a binary node is always written. -/
theorem encodeResponse_error {text : WebService.JsonText} {response : Json} {fault : Cxx.Fault}
    (failed : WebService.encodeResponse text response = .error fault) :
    containsBinaries response = false := by
  rw [WebService.encodeResponse] at failed
  split at failed
  · cases failed
  · rename_i plain
    simpa using plain

/-- What the handler answers to a call that returned. -/
theorem postCall_contentType {server : WebService.Server N R} {fuel : Nat} {context : InterfaceContext}
    {sent : List (DbusCaller.Sent N)} {path body : Str} {parts : WebService.RequestPath}
    {request result : Json} {response : WebService.Response}
    (parsed : WebService.parseDbusRequestPath path = .ok (some parts))
    (read : server.text.parse body = .ok request)
    (called : (DbusCaller.call server.connection server.env fuel context sent parts.serviceName
      parts.objectPath parts.interfaceName parts.method request).2 = .ok result)
    (answered : (WebService.postCall server fuel context sent path body).2 = .ok response) :
    response.contentType = "application/json".toList ↔ containsBinaries result = false := by
  simp only [WebService.postCall, parsed, read, called, Cxx.bind_ok] at answered
  cases encoded : WebService.encodeResponse server.text result with
  | ok written =>
      rw [encoded] at answered
      cases answered
      exact encodeResponse_contentType encoded
  | error fault =>
      have plain := encodeResponse_error encoded
      rw [encoded] at answered
      cases fault with
      | thrown exn => exact iff_of_true (encodeError_contentType answered) plain
      | outOfFuel => cases answered

end Handler

/-- A dict of one array of bytes. -/
def blobs : Value :=
  .array (.entry (.basic .string) (.array (.basic (.int .byte))))
    [.entry (.string ⟨"a".toList, by decide⟩)
      (.array (.basic (.int .byte)) [.int .byte ⟨1, by decide⟩])]

def binaryEnv : Env := { bareEnv with config := { binarySupport := true } }

theorem blobs_keyed : DictsKeyed [blobs] := by
  intro v inside elem items contains
  rw [List.mem_singleton.mp inside] at contains
  cases contains with
  | self => exact ⟨by simp [dictKeys], by simp [dictKeys]⟩
  | element among inner =>
      rw [List.mem_singleton.mp among] at inner
      cases inner with
      | dictValue inner =>
          cases inner with
          | self => exact ⟨by simp [dictKeys], by simp [dictKeys]⟩
          | element among inner =>
              rw [List.mem_singleton.mp among] at inner
              cases inner

end Dbus2Http.Message2Json

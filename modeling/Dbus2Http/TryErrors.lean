import Dbus2Http.JsonGrammar
import Dbus2Http.TryPage

set_option autoImplicit false

namespace Dbus2Http

open Cxx (Str Run Exn ThrowsOnly cStr charAt substr substrFrom)

/-! ### What sampling throws -/

namespace SignatureUtils

/-- The fixed words of the exceptions. -/
def refusals : List Str :=
  ["Unsupported signature: ".toList, "Unknown signature: ".toList, "basic_string::substr".toList]

/-- Fixed words, and behind them at most the one character that is refused. -/
def Refuses (sig : Str) (exn : Exn) : Prop :=
  ∃ words ∈ refusals, ∃ code, exn.what = words ++ code ∧ code.length ≤ 1 ∧ code ⊆ sig

theorem Refuses.mono {part sig : Str} {exn : Exn} (refuses : Refuses part exn) (inside : part ⊆ sig) :
    Refuses sig exn := by
  obtain ⟨words, known, code, what, short, within⟩ := refuses
  exact ⟨words, known, code, what, short, List.Subset.trans within inside⟩

theorem refuses_words {words : Str} (known : words ∈ refusals) (cls : Cxx.ExnClass) (sig : Str) :
    Refuses sig ⟨cls, words⟩ :=
  ⟨words, known, [], (List.append_nil words).symm, Nat.zero_le 1, List.nil_subset sig⟩

theorem substrFrom_refuses (sig s : Str) (pos : Nat) : ThrowsOnly (Refuses sig) (substrFrom s pos) := by
  unfold substrFrom
  split
  · exact .throwExn (refuses_words (by decide) _ sig)
  · exact .ok _

theorem substr_refuses (sig s : Str) (pos n : Nat) : ThrowsOnly (Refuses sig) (substr s pos n) := by
  unfold substr
  split
  · exact .throwExn (refuses_words (by decide) _ sig)
  · exact .ok _

theorem cutAt_refuses (sig : Str) (pos : Nat) : ThrowsOnly (Refuses sig) (cutAt sig pos) := by
  apply ThrowsOnly.bind (substr_refuses sig sig 0 pos)
  intro piece _
  apply ThrowsOnly.bind (substrFrom_refuses sig sig pos)
  intro rest _
  exact .ok _

theorem splitPiece_refuses (sig : Str) : ThrowsOnly (Refuses sig) (splitPiece sig) := by
  have front : (sig.take 1).length ≤ 1 := by
    rw [List.length_take]
    exact Nat.min_le_left _ _
  have inside : sig.take 1 ⊆ sig := List.take_subset 1 sig
  unfold splitPiece
  simp only
  repeat' split
  all_goals first
    | exact cutAt_refuses sig _
    | exact .throwExn ⟨_, by decide, _, rfl, front, inside⟩

theorem split_refuses (sig : Str) : ThrowsOnly (Refuses sig) (split sig) := by
  have loop : ∀ fuel remainSig result, remainSig ⊆ sig →
      ThrowsOnly (Refuses sig) (splitLoop fuel remainSig result) := by
    intro fuel
    induction fuel with
    | zero => exact fun _ _ _ => .outOfFuel
    | succ fuel ih =>
        intro remainSig result inside
        rw [splitLoop]
        split
        · exact .ok _
        · apply ThrowsOnly.bind ((splitPiece_refuses remainSig).mono fun _ refuses => refuses.mono inside)
          intro cut found
          apply ih
          have whole := splitPiece_append found
          rw [← whole] at inside
          exact (List.append_subset.mp inside).2
  exact loop _ _ _ (List.Subset.refl sig)

/-- A piece that opens nothing has one character. -/
theorem length_of_splitPiece {sig piece rest : Str} (cut : splitPiece sig = .ok (piece, rest)) :
    piece.length ≤ 1 ∨ charAt sig 0 = '(' ∨ charAt sig 0 = 'a' := by
  by_cases plain : charAt sig 0 ∈ plainCodes
  · simp only [splitPiece, plain, ↓reduceIte] at cut
    rw [cutAt_eq] at cut
    split at cut
    · exact absurd cut (Cxx.throwExn_ne_ok _ _ _)
    · have piece' := (Prod.mk.inj (Except.ok.inj cut)).1
      rw [← piece', List.length_take]
      exact .inl (Nat.min_le_left _ _)
  · by_cases struct : charAt sig 0 = '('
    · exact .inr (.inl struct)
    · by_cases array : charAt sig 0 = 'a'
      · exact .inr (.inr array)
      · simp only [splitPiece, plain, struct, array, ↓reduceIte] at cut
        split at cut
        · exact absurd cut (Cxx.throwExn_ne_ok _ _ _)
        · exact absurd cut (Cxx.throwExn_ne_ok _ _ _)

/-- Of the signatures that are one piece or none only those of containers are longer than one
character. -/
theorem length_of_split {sig : Str} {pieces : List Str} (cut : split sig = .ok pieces)
    (single : ¬ 1 < pieces.length) :
    sig.length ≤ 1 ∨ charAt sig 0 = '(' ∨ charAt sig 0 = 'a' := by
  by_cases empty : sig = []
  · rw [empty]
    exact .inl (Nat.zero_le 1)
  · have opened := cut
    rw [split_eq empty] at opened
    obtain ⟨⟨piece, rest⟩, first, later⟩ := Cxx.bind_eq_ok.mp opened
    obtain ⟨others, _, listed⟩ := Cxx.bind_eq_ok.mp later
    rw [← Except.ok.inj listed] at cut single
    have none : others = [] := by
      rw [List.length_cons] at single
      exact List.length_eq_zero_iff.mp (by omega)
    rw [none] at cut
    rw [← split_single cut] at first ⊢
    exact length_of_splitPiece first

end SignatureUtils

namespace Rand2Json

open Dbus (IntTy)
open SignatureUtils (Refuses substr_refuses substrFrom_refuses)

theorem repeatLoop_throwsOnly {α : Type} {P : Exn → Prop} (good : α → Prop) {draws : Draws}
    {body : α → Nat → Run (α × Nat)}
    (round : ∀ r now, good r → ThrowsOnly P (body r now) ∧
      ∀ r' now', body r now = .ok (r', now') → good r')
    (tests i : Nat) {r : α} (now : Nat) (holds : good r) :
    ThrowsOnly P (repeatLoop draws body tests i r now) := by
  induction tests generalizing i r now with
  | zero => exact .outOfFuel
  | succ tests ih =>
      rw [repeatLoop]
      split
      · obtain ⟨first, kept⟩ := round r (now + 1) holds
        apply ThrowsOnly.bind first
        intro next ran
        exact ih (i + 1) next.2 (kept next.1 next.2 ran)
      · exact .ok _

/-- The one signature that is sampled for a variant is never refused. -/
theorem randLoop_variant (P : Exn → Prop) (draws : Draws) (fuel now : Nat) :
    ThrowsOnly P (randLoop draws fuel ['a', '{', 's', 'i', '}'] now) := by
  cases fuel with
  | zero => exact .outOfFuel
  | succ fuel =>
      have loop : randLoop draws (fuel + 1) ['a', '{', 's', 'i', '}'] now =
          repeatLoop draws (randEntry (randLoop draws fuel) ['s', 'i']) repeatTests 0 .null now := rfl
      rw [loop]
      refine repeatLoop_throwsOnly Json.Growing ?_ _ _ _ (.inl rfl)
      intro result now growing
      cases fuel with
      | zero =>
          have ends : randEntry (randLoop draws 0) ['s', 'i'] result now = .error .outOfFuel := rfl
          rw [ends]
          exact ⟨.outOfFuel, fun _ _ done => by contradiction⟩
      | succ fuel =>
          obtain ⟨members, set⟩ := growing.setMember "hello".toList
            (.integer (IntTy.int64.wrap (draws.neg now).val))
          have ends : randEntry (randLoop draws (fuel + 1)) ['s', 'i'] result now =
              (result.setMember "hello".toList (.integer (IntTy.int64.wrap (draws.neg now).val)) >>=
                fun result => .ok (result, now + 1)) := rfl
          rw [ends, set, Cxx.bind_ok]
          refine ⟨.ok _, fun r' now' done => ?_⟩
          cases done
          exact Json.growing_object members

/-- On the parts of the signature the sampler throws nothing else. -/
def RefusesWithin (sig : Str) (rand : Sampler) : Prop :=
  ∀ part, part ⊆ sig → ∀ now, ThrowsOnly (Refuses sig) (rand part now)

section Pieces

variable {draws : Draws} {rand : Sampler} {sig : Str}

theorem randItem_refuses {part : Str} (inside : part ⊆ sig) (inner : RefusesWithin sig rand)
    (result : List Json) (now : Nat) : ThrowsOnly (Refuses sig) (randItem rand part result now) := by
  apply ThrowsOnly.bind (inner part inside now)
  intro drawn _
  exact .ok _

theorem randEntry_refuses {part : Str} (inside : part ⊆ sig) (inner : RefusesWithin sig rand)
    (result : Json) (now : Nat) (growing : result.Growing) :
    ThrowsOnly (Refuses sig) (randEntry rand part result now) ∧
      ∀ result' now', randEntry rand part result now = .ok (result', now') → result'.Growing := by
  constructor
  · apply ThrowsOnly.bind (substr_refuses sig part 0 1)
    intro keySig keyCut
    apply ThrowsOnly.bind (inner keySig (List.Subset.trans (Cxx.subset_of_substr keyCut) inside) now)
    intro key _
    apply ThrowsOnly.bind (substrFrom_refuses sig part 1)
    intro valueSig valueCut
    apply ThrowsOnly.bind
      (inner valueSig (List.Subset.trans (Cxx.subset_of_substrFrom valueCut) inside) key.2)
    intro value _
    obtain ⟨members, set⟩ := growing.setMember key.1.keyText value.1
    simp only [set, Cxx.bind_ok]
    exact .ok _
  · intro result' now' done
    obtain ⟨keySig, _, done⟩ := Cxx.bind_eq_ok.mp done
    obtain ⟨key, _, done⟩ := Cxx.bind_eq_ok.mp done
    obtain ⟨valueSig, _, done⟩ := Cxx.bind_eq_ok.mp done
    obtain ⟨value, _, done⟩ := Cxx.bind_eq_ok.mp done
    obtain ⟨members, set⟩ := growing.setMember key.1.keyText value.1
    simp only [set, Cxx.bind_ok, Except.ok.injEq, Prod.mk.injEq] at done
    rw [← done.1]
    exact Json.growing_object members

theorem randArray_refuses (inner : RefusesWithin sig rand) (now : Nat) :
    ThrowsOnly (Refuses sig) (randArray draws rand sig now) := by
  have items : ∀ part, part ⊆ sig →
      ThrowsOnly (Refuses sig) (repeatLoop draws (randItem rand part) repeatTests 0 [] now) := by
    intro part inside
    refine repeatLoop_throwsOnly (fun _ => True) ?_ _ _ _ trivial
    intro result now _
    exact ⟨randItem_refuses inside inner result now, fun _ _ _ => trivial⟩
  apply ThrowsOnly.bind (substrFrom_refuses sig sig 1)
  intro arraySig arrayCut
  have inArray := Cxx.subset_of_substrFrom arrayCut
  split
  · apply ThrowsOnly.bind (substr_refuses sig arraySig 1 _)
    intro elementSig elementCut
    have inside := List.Subset.trans (Cxx.subset_of_substr elementCut) inArray
    exact repeatLoop_throwsOnly Json.Growing (randEntry_refuses inside inner) _ _ _ (.inl rfl)
  · split
    · apply ThrowsOnly.bind (substr_refuses sig arraySig 1 _)
      intro elementSig elementCut
      apply ThrowsOnly.bind (items elementSig (List.Subset.trans (Cxx.subset_of_substr elementCut) inArray))
      intro drawn _
      exact .ok _
    · apply ThrowsOnly.bind (items arraySig inArray)
      intro drawn _
      exact .ok _

theorem randPiece_refuses (short : sig.length ≤ 1 ∨ charAt sig 0 = '(' ∨ charAt sig 0 = 'a')
    (inner : RefusesWithin sig rand)
    (variant : ∀ now, ThrowsOnly (Refuses sig) (rand ['a', '{', 's', 'i', '}'] now)) (now : Nat) :
    ThrowsOnly (Refuses sig) (randPiece draws rand sig now) := by
  unfold randPiece
  split
  case h_14 notStruct notArray =>
    have one : sig.length ≤ 1 := by
      rcases short with one | struct | array
      · exact one
      · exact absurd struct notStruct
      · exact absurd array notArray
    split
    · exact .throwExn ⟨_, by decide, _, rfl, one, List.Subset.refl sig⟩
    · exact .throwExn ⟨_, by decide, _, rfl, one, List.Subset.refl sig⟩
  case h_11 =>
    apply ThrowsOnly.bind (variant now)
    intro drawn _
    exact .ok _
  case h_12 =>
    apply ThrowsOnly.bind (substr_refuses sig sig 1 _)
    intro elementSig elementCut
    exact inner elementSig (Cxx.subset_of_substr elementCut) now
  case h_13 => exact randArray_refuses inner now
  all_goals exact .ok _

end Pieces

theorem randLoop_refuses (draws : Draws) (fuel : Nat) (sig : Str) (now : Nat) :
    ThrowsOnly (Refuses sig) (randLoop draws fuel sig now) := by
  induction fuel generalizing sig now with
  | zero => exact .outOfFuel
  | succ fuel ih =>
      have inner : RefusesWithin sig (randLoop draws fuel) := by
        intro part inside now
        exact (ih part now).mono fun _ refuses => refuses.mono inside
      apply ThrowsOnly.bind (SignatureUtils.split_refuses sig)
      intro pieces cut
      split
      · apply ThrowsOnly.bind
        · refine ThrowsOnly.foldlM (fun _ => True) ?_ trivial
          intro piece member state _
          have inside : piece ⊆ sig := by
            rw [← (SignatureUtils.split_pieces cut).1]
            exact fun c here => List.mem_flatten_of_mem member here
          exact ⟨randItem_refuses inside inner state.1 state.2, fun _ _ => trivial⟩
        · intro drawn _
          exact .ok _
      · rename_i single
        exact randPiece_refuses (SignatureUtils.length_of_split cut single) inner
          (randLoop_variant _ draws fuel) now

/-- When no sample is made for a method, a character in the signature of one of its arguments is
refused. -/
theorem randArguments_refuses (draws : Draws) (args : List Argument) (now : Nat) :
    ThrowsOnly (fun exn => ∃ arg ∈ args, Refuses arg.type exn) (randArguments draws args now) := by
  apply ThrowsOnly.bind
  · refine ThrowsOnly.foldlM (fun state => state.result.Growing) ?_ (.inl rfl)
    intro arg inside state growing
    constructor
    · apply ThrowsOnly.bind
      · exact (randLoop_refuses draws _ arg.type state.now).mono fun _ refuses => ⟨arg, inside, refuses⟩
      · intro drawn _
        obtain ⟨members, set⟩ := growing.setMember
          (if arg.name = [] then "arg".toList ++ Cxx.toDecimal state.i else arg.name) drawn.1
        simp only [set, Cxx.bind_ok]
        exact .ok _
    · intro next done
      obtain ⟨drawn, _, done⟩ := Cxx.bind_eq_ok.mp done
      obtain ⟨members, set⟩ := growing.setMember
        (if arg.name = [] then "arg".toList ++ Cxx.toDecimal state.i else arg.name) drawn.1
      simp only [set, Cxx.bind_ok, Except.ok.injEq] at done
      rw [← done]
      exact Json.growing_object members
  · intro final _
    exact .ok _

end Rand2Json

/-! ### The body of an error -/

namespace WebService

open JsonGrammar
open DbusCaller (raising)
open Rand2Json (Draws randArguments)
open SignatureUtils (refusals)

/-- An answer whose content is the JSON text of an object with the message in it and nothing
else. -/
structure ErrorBody (stored : Str → Json) (what : Str) (response : Response) : Prop where
  status : response.status = 500
  contentType : response.contentType = "application/json".toList
  message : Denotes stored response.content (.object [("message".toList, .string what)])

/-- The handler of calls writes the message out with the library: what writes values as texts that
denote them gives a body for every message. -/
theorem encodeError_errorBody {stored : Str → Json} {text : JsonText}
    (writes : ∀ json written, text.dump json = .ok written → Denotes stored written json)
    {exn : Exn} {response : Response} (answered : encodeError text exn = .ok response) :
    ErrorBody stored (cStr exn.what) response := by
  obtain ⟨j, set, rest⟩ := Cxx.bind_eq_ok.mp answered
  obtain ⟨content, dumped, built⟩ := Cxx.bind_eq_ok.mp rest
  rw [← Except.ok.inj set] at dumped
  rw [← Except.ok.inj built]
  refine ⟨rfl, rfl, writes _ _ ?_⟩
  cases written : text.dump (.object [("message".toList, .string (cStr exn.what))]) with
  | error what =>
      rw [written] at dumped
      exact absurd dumped (Cxx.throwExn_ne_ok _ _ _)
  | ok content' =>
      rw [written] at dumped
      exact congrArg Except.ok (Except.ok.inj dumped)

section Handler

variable {path : Str} {parts : RequestPath}

/-- Behind plain words only the rest counts. -/
theorem plainText_words_iff {words : Str} (ascii : PlainAscii words) (s : Str) :
    PlainText (cStr (words ++ s)) ↔ PlainText (cStr s) := by
  have clean : '\x00' ∉ words := by
    intro inside
    exact absurd (ascii _ inside).2 (by decide)
  rw [Cxx.cStr_append clean, plainText_append_iff ascii]

/-- The handler of the page puts the message between quotes as it is. -/
theorem getTry_of_thrown (accepted : parseDbusRequestPath path = .ok (some parts))
    (stored : Str → Json) {draws : Draws} {dump : Json → Except Str Str}
    {context later : InterfaceContext} {now : Nat} {exn : Exn}
    (thrown : tryContent draws dump context later now parts = .error (.thrown exn)) :
    ∃ response, getTry draws dump context later now path = .ok response ∧
      (ErrorBody stored (cStr exn.what) response ↔ PlainText (cStr exn.what)) := by
  have name : PlainText "message".toList := PlainAscii.plainText (by decide)
  have content : "\x7b\"message\": \"".toList ++ cStr exn.what ++ "\"\x7d".toList =
      '{' :: (quoted "message".toList ++ ':' :: ' ' :: (quoted (cStr exn.what) ++ ['}'])) := by
    simp [quoted]
  have valid : Denotes stored ("\x7b\"message\": \"".toList ++ cStr exn.what ++ "\"\x7d".toList)
      (.object [("message".toList, .string (cStr exn.what))]) ↔ PlainText (cStr exn.what) := by
    rw [content]
    exact denotes_member_iff name (cStr exn.what)
  have answered : getTry draws dump context later now path = .ok {
      status := 500
      content := "\x7b\"message\": \"".toList ++ cStr exn.what ++ "\"\x7d".toList
      contentType := "application/json".toList } := by
    rw [getTry, accepted]
    simp only [thrown]
  refine ⟨_, answered, ?_⟩
  constructor
  · intro body
    exact valid.mp body.message
  · intro plain
    exact ⟨rfl, rfl, valid.mpr plain⟩

/-- The exception for a name that is not in the registry ends with the name. -/
theorem getTry_of_unknown (accepted : parseDbusRequestPath path = .ok (some parts))
    (stored : Str → Json) (draws : Draws) (dump : Json → Except Str Str)
    {context : InterfaceContext} (later : InterfaceContext) (now : Nat) {words name : Str}
    (ascii : PlainAscii words)
    (unknown : context.get (T := Method) parts.interfaceName parts.method =
      Cxx.throwExn .invalidArgument (words ++ name)) :
    ∃ response, getTry draws dump context later now path = .ok response ∧
      (ErrorBody stored (cStr (words ++ name)) response ↔ PlainText (cStr name)) := by
  have raised : tryContent draws dump context later now parts =
      .error (.thrown ⟨.invalidArgument, words ++ name⟩) := by
    rw [tryContent, randRequest, unknown]
    rfl
  obtain ⟨response, answered, valid⟩ := getTry_of_thrown accepted stored raised
  refine ⟨response, answered, ?_⟩
  rw [valid, plainText_words_iff ascii]

/-- The body of an error is a JSON text with the text of the exception exactly when the name from
the path, or the character of a signature, that is put into that text needs no escape. -/
theorem tryError_iff (accepted : parseDbusRequestPath path = .ok (some parts))
    (stored : Str → Json) (draws : Draws) (dump : Json → Except Str Str)
    (context later : InterfaceContext) (now : Nat) :
    (context.containsInterface parts.interfaceName = false →
      ∃ response, getTry draws dump context later now path = .ok response ∧
        (ErrorBody stored (cStr ("interface not found: ".toList ++ parts.interfaceName)) response ↔
          PlainText (cStr parts.interfaceName))) ∧
    (∀ interface, context.interfaces.find? parts.interfaceName = some interface →
      interface.methods.contains parts.method = false →
      ∃ response, getTry draws dump context later now path = .ok response ∧
        (ErrorBody stored (cStr ("member not found: ".toList ++ parts.method)) response ↔
          PlainText (cStr parts.method))) ∧
    ∀ (methodType : Method) (exn : Exn),
      context.get parts.interfaceName parts.method = .ok methodType →
      randArguments draws methodType.inArgs now = .error (.thrown exn) →
      ∃ words ∈ refusals, ∃ code, exn.what = words ++ code ∧ code.length ≤ 1 ∧
        (∃ arg ∈ methodType.inArgs, code ⊆ arg.type) ∧
        ∃ response, getTry draws dump context later now path = .ok response ∧
          (ErrorBody stored (cStr exn.what) response ↔ PlainText (cStr code)) := by
  refine ⟨?_, ?_, ?_⟩
  · intro unknown
    have absent : context.interfaces.find? parts.interfaceName = none :=
      (OrderedMap.contains_eq_false_iff _ _).mp unknown
    apply getTry_of_unknown accepted stored draws dump later now (by decide)
    rw [InterfaceContext.get, absent]
  · intro interface known missing
    have absent : (Member.container interface : OrderedMap Str Method).find? parts.method = none :=
      (OrderedMap.contains_eq_false_iff _ _).mp missing
    apply getTry_of_unknown accepted stored draws dump later now (by decide)
    rw [InterfaceContext.get, known]
    simp only [Interface.get, absent]
  · intro methodType exn known thrown
    obtain ⟨arg, inside, words, fixed, code, what, short, within⟩ :=
      Rand2Json.randArguments_refuses draws methodType.inArgs now exn thrown
    have raised : tryContent draws dump context later now parts = .error (.thrown exn) := by
      rw [tryContent, randRequest, known, Cxx.bind_ok, thrown]
      rfl
    obtain ⟨response, answered, valid⟩ := getTry_of_thrown accepted stored raised
    refine ⟨words, fixed, code, what, short, ⟨arg, inside, within⟩, response, answered, ?_⟩
    have ascii : ∀ words ∈ refusals, PlainAscii words := by
      simp only [refusals, List.forall_mem_cons]
      exact ⟨by decide, by decide, by decide, by simp⟩
    rw [valid, what, plainText_words_iff (ascii words fixed)]

end Handler

/-! ### Requests for a lamp -/

def aimRegistry : InterfaceContext :=
  InterfaceContext.addInterface {} (Interface.add { name := "a.Lamp".toList }
    ({ name := "Aim".toList
       args := [{ name := "target".toList, type := "o".toList, direction := "in".toList }] } : Method))

/-- No interface, no method and no sample: each of the three errors occurs. -/
theorem tryError_lamp :
    (∃ response, getTry lampDraws lampDump aimRegistry aimRegistry 0
        "a.desk/lamp/a.Fan.Aim".toList = .ok response ∧
      (ErrorBody (fun _ => .null) (cStr "interface not found: a.Fan".toList) response ↔
        PlainText (cStr "a.Fan".toList))) ∧
    (∃ response, getTry lampDraws lampDump aimRegistry aimRegistry 0
        "a.desk/lamp/a.Lamp.Dim".toList = .ok response ∧
      (ErrorBody (fun _ => .null) (cStr "member not found: Dim".toList) response ↔
        PlainText (cStr "Dim".toList))) ∧
    ∃ words ∈ refusals, ∃ code, "Unsupported signature: o".toList = words ++ code ∧
      code.length ≤ 1 ∧ code ⊆ "o".toList ∧
      ∃ response, getTry lampDraws lampDump aimRegistry aimRegistry 0
          "a.desk/lamp/a.Lamp.Aim".toList = .ok response ∧
        (ErrorBody (fun _ => .null) (cStr "Unsupported signature: o".toList) response ↔
          PlainText (cStr code)) := by
  have fan : parseDbusRequestPath "a.desk/lamp/a.Fan.Aim".toList =
      .ok (some ⟨"a.desk".toList, "/lamp".toList, "a.Fan".toList, "Aim".toList⟩) := rfl
  have dim : parseDbusRequestPath "a.desk/lamp/a.Lamp.Dim".toList =
      .ok (some ⟨"a.desk".toList, "/lamp".toList, "a.Lamp".toList, "Dim".toList⟩) := rfl
  have aim : parseDbusRequestPath "a.desk/lamp/a.Lamp.Aim".toList =
      .ok (some ⟨"a.desk".toList, "/lamp".toList, "a.Lamp".toList, "Aim".toList⟩) := rfl
  obtain ⟨words, fixed, code, what, short, ⟨arg, inside, within⟩, answer⟩ :=
    (tryError_iff aim (fun _ => .null) lampDraws lampDump aimRegistry aimRegistry 0).2.2 _
      ⟨.invalidArgument, "Unsupported signature: o".toList⟩ rfl rfl
  have only := List.mem_singleton.mp inside
  rw [only] at within
  exact ⟨(tryError_iff fan (fun _ => .null) lampDraws lampDump aimRegistry aimRegistry 0).1 rfl,
    (tryError_iff dim (fun _ => .null) lampDraws lampDump aimRegistry aimRegistry 0).2.1 _ rfl rfl,
    words, fixed, code, what, short, within, answer⟩

/-- A quote in the name of the method ends the string too early. -/
theorem tryError_quote :
    ¬ ∃ stored response, getTry lampDraws lampDump lampRegistry lampRegistry 0
        "a.desk/lamp/a.Lamp.To\"ggle".toList = .ok response ∧
      ErrorBody stored (cStr "member not found: To\"ggle".toList) response := by
  rintro ⟨stored, response, answered, body⟩
  have parsed : parseDbusRequestPath "a.desk/lamp/a.Lamp.To\"ggle".toList =
      .ok (some ⟨"a.desk".toList, "/lamp".toList, "a.Lamp".toList, "To\"ggle".toList⟩) := rfl
  have unknown : lampRegistry.get (T := Method) "a.Lamp".toList "To\"ggle".toList =
      Cxx.throwExn .invalidArgument ("member not found: ".toList ++ "To\"ggle".toList) := rfl
  obtain ⟨response', answered', valid⟩ :=
    getTry_of_unknown parsed stored lampDraws lampDump lampRegistry 0 (by decide) unknown
  rw [answered] at answered'
  rw [← Except.ok.inj answered'] at valid
  have plain : PlainText ("To".toList ++ '"' :: "ggle".toList) := valid.mp body
  rw [plainText_append_iff (by decide), plainText_cons_iff (by decide)] at plain
  exact absurd plain.1 (by decide)

end WebService
end Dbus2Http

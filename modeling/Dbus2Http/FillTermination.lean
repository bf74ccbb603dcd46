import Dbus2Http.Json2Message
import Dbus2Http.SplitterLaws

set_option autoImplicit false

namespace Dbus2Http.SignatureUtils

open Cxx (Str Ends charAt)
open Dbus (Basic Ty)

/-! ### Signatures on which the splitter ends -/

theorem split_ends_of_splitPiece {sig piece rest : Str}
    (cut : splitPiece sig = .ok (piece, rest)) (ends : Ends (split rest)) : Ends (split sig) := by
  by_cases done : sig = []
  · rw [done]
    exact .ok _
  · rw [split_eq done, cut, Cxx.bind_ok]
    exact ends.bind fun pieces _ => .ok _

theorem split_ends_of_throw {sig : Str} {exn : Cxx.Exn}
    (refused : splitPiece sig = .error (.thrown exn)) : Ends (split sig) := by
  by_cases done : sig = []
  · rw [done]
    exact .ok _
  · rw [split_eq done, refused, Cxx.bind_error]
    simp [Ends]

/-- Behind the end of a C string nothing is left, or a zero that the splitter refuses. -/
theorem split_ends_of_dropped {dropped : Str} (zero : charAt dropped 0 = '\x00') :
    Ends (split dropped) := by
  have refused : splitPiece dropped =
      Cxx.throwExn .invalidArgument ("Unsupported signature: ".toList ++ dropped.take 1) := by
    have plain : '\x00' ∉ plainCodes := by decide
    have unsupported : '\x00' ∈ unsupportedCodes := by decide
    simp only [splitPiece, zero, plain, unsupported, ↓reduceIte]
    rfl
  exact split_ends_of_throw refused

theorem splitPiece_refused {b : Basic} (refused : b = .objectPath ∨ b = .signature) (rest : Str) :
    ∃ exn, splitPiece ((Ty.basic b).text ++ rest) = .error (.thrown exn) := by
  rcases refused with rfl | rfl <;> exact ⟨_, rfl⟩

/-- An array of arrays loses two codes in one round, and what is left is still made of
types; nothing else that is made of types keeps the splitter from going on. -/
theorem split_ends_texts (ts : List Ty) {rest : Str} (ends : Ends (split rest)) :
    Ends (split (Ty.texts ts ++ rest)) := by
  induction size : (Ty.texts ts).length using Nat.strong_induction_on generalizing ts with
  | _ size ih =>
    cases ts with
    | nil => exact ends
    | cons t ts =>
        rw [Ty.texts_cons, List.append_assoc]
        rw [Ty.texts_cons, List.length_append] at size
        have positive := t.text_length_pos
        have others := ih (Ty.texts ts).length (by omega) ts rfl
        by_cases splits : Splits t
        · exact split_ends_of_splitPiece (splitPiece_text splits _) others
        · cases t with
          | basic b =>
              have refused : b = .objectPath ∨ b = .signature := by
                by_contra taken
                exact splits (not_or.mp taken)
              obtain ⟨exn, thrown⟩ := splitPiece_refused refused (Ty.texts ts ++ rest)
              exact split_ends_of_throw thrown
          | entry key value =>
              have refused : splitPiece ((Ty.entry key value).text ++ (Ty.texts ts ++ rest)) =
                  Cxx.throwExn .invalidArgument ("Unknown signature: ".toList ++ ['{']) := rfl
              exact split_ends_of_throw refused
          | array elem =>
              cases elem with
              | array inner =>
                  have cut : splitPiece ((Ty.array (.array inner)).text ++ (Ty.texts ts ++ rest)) =
                      .ok (['a', 'a'], inner.text ++ (Ty.texts ts ++ rest)) :=
                    splitPiece_array (by decide) (by decide) _
                  apply split_ends_of_splitPiece cut
                  have inside := ih (Ty.texts (inner :: ts)).length
                    (by simp only [Ty.texts_cons, List.length_append, Ty.text_array,
                      List.length_cons] at size ⊢; omega) (inner :: ts) rfl
                  rwa [Ty.texts_cons, List.append_assoc] at inside
              | _ => exact absurd trivial splits
          | variant => exact absurd trivial splits
          | struct fields => exact absurd trivial splits

/-- A text that is accepted as types when it is passed as a C string. -/
theorem split_ends_of_cStr {sig : Str} {ts : List Ty} (accepted : Cxx.cStr sig = Ty.texts ts) :
    Ends (split sig) := by
  obtain ⟨dropped, whole, zero⟩ := Cxx.exists_dropped sig
  rw [whole, accepted]
  exact split_ends_texts ts (split_ends_of_dropped zero)

theorem split_ends_iff (sig : Str) : Ends (split sig) ↔ Terminates sig := by
  constructor
  · intro ends
    exact ⟨sig.length + 1, ends⟩
  · intro terminates endless
    exact (terminates_iff sig).mp terminates (split_outOfFuel endless)

end Dbus2Http.SignatureUtils

namespace Dbus2Http.Json2Message

open Cxx (Str Run Ends charAt cStr)
open Dbus (IntTy Ty Value ContainerKind Draft MessageWriter LawfulWriter described)
open SignatureUtils (split_ends_of_cStr)

/-! ### Containers whose contents are checked -/

/-- A container is opened only for contents that are valid for its kind. -/
def Validates (M : Type) [MessageWriter M] : Prop :=
  ∀ (kind : ContainerKind) (m : M) (contents : Str) (m' : M),
    MessageWriter.openContainer kind m contents = some m' → (described kind contents).isSome

theorem validates_lawful (M : Type) [LawfulWriter M] : Validates M := by
  intro kind m contents m' opened
  have drafted := LawfulWriter.open_draft kind m contents
  rw [opened, Option.map_some, eq_comm, Draft.openContainer_eq_some] at drafted
  obtain ⟨t, slots, _, shape, _⟩ := drafted
  rw [shape]
  rfl

section Ends

variable {M : Type} [MessageWriter M] (validates : Validates M)

include validates

theorem described_of_open {kind : ContainerKind} {m m' : M} {contents : Str}
    (opened : openContainer kind m contents = .ok m') :
    ∃ shape, described kind (cStr contents) = some shape :=
  Option.isSome_iff_exists.mp (validates kind m (cStr contents) m' (Cxx.orThrow_eq_ok.mp opened))

/-- The contents of a variant, of an array and of a struct can all be split. -/
theorem split_ends_of_variant {m m' : M} {contents : Str}
    (opened : openContainer .variant m contents = .ok m') : Ends (SignatureUtils.split contents) := by
  obtain ⟨⟨t, slots⟩, shape⟩ := described_of_open validates opened
  obtain ⟨content, text, _⟩ := Dbus.described_variant_iff.mp shape
  have accepted : cStr contents = Ty.texts [content] := by rw [Ty.texts_singleton, text]
  exact split_ends_of_cStr accepted

theorem split_ends_of_array {m m' : M} {contents : Str}
    (opened : openContainer .array m contents = .ok m') : Ends (SignatureUtils.split contents) := by
  obtain ⟨⟨t, slots⟩, shape⟩ := described_of_open validates opened
  obtain ⟨elem, text, _⟩ := Dbus.described_array_iff.mp shape
  have accepted : cStr contents = Ty.texts [elem] := by rw [Ty.texts_singleton, text]
  exact split_ends_of_cStr accepted

theorem split_ends_of_struct {m m' : M} {contents : Str}
    (opened : openContainer .struct m contents = .ok m') : Ends (SignatureUtils.split contents) := by
  obtain ⟨⟨t, slots⟩, shape⟩ := described_of_open validates opened
  obtain ⟨fields, text, _⟩ := Dbus.described_struct_iff.mp shape
  exact split_ends_of_cStr text.symm

/-- The contents of a dict entry are cut by position: one code for the key, and the rest. -/
theorem split_ends_of_entry {m m' : M} {contents : Str}
    (opened : openContainer .dictEntry m contents = .ok m') :
    Ends (SignatureUtils.split (contents.take 1)) ∧ Ends (SignatureUtils.split (contents.drop 1)) := by
  obtain ⟨⟨t, slots⟩, shape⟩ := described_of_open validates opened
  obtain ⟨key, value, text, element, _⟩ := Dbus.described_dictEntry_iff.mp shape
  obtain ⟨b, rfl⟩ : ∃ b, key = .basic b := by
    have basic := ((Ty.element_entry key value).mp element).1
    cases key with
    | basic b => exact ⟨b, rfl⟩
    | _ => contradiction
  obtain ⟨dropped, whole, zero⟩ := Cxx.exists_dropped contents
  have cut : contents = b.code :: (value.text ++ dropped) := by
    rw [whole, ← text]
    simp
  rw [cut]
  constructor
  · exact SignatureUtils.split_ends_texts [.basic b] (show Ends (SignatureUtils.split []) from .ok _)
  · have behind := SignatureUtils.split_ends_texts [value] (SignatureUtils.split_ends_of_dropped zero)
    rwa [Ty.texts_singleton] at behind

/-! ### Calls that end -/

/-- The filler ends on every call smaller than `size` whose signature can be split. -/
def EndsBelow (size : Nat) (fill : Filler M) : Prop :=
  ∀ sig json, sig.length + json.weight < size → Ends (SignatureUtils.split sig) →
    ∀ m, Ends (fill m sig json)

variable {fill : Filler M}

omit validates in
theorem append_ends (m : M) (value : Value) : Ends (append m value) := .orThrow _ _

omit validates in
theorem stoll_ends (text : Str) : Ends (Cxx.stoll text) := by
  have digits : ∀ negative rest, Ends (Cxx.stollDigits negative rest) := by
    intro negative rest
    unfold Cxx.stollDigits
    by_cases none : rest.takeWhile Char.isDigit = []
    · simp only [none, ↓reduceIte]
      exact .throwExn _ _
    · simp only [none, ↓reduceIte]
      split
      · split
        · exact .ok _
        · exact .throwExn _ _
      · split
        · exact .ok _
        · exact .throwExn _ _
  unfold Cxx.stoll
  split <;> exact digits _ _

omit validates in
theorem appendIntegerFromJson_ends (t : IntTy) (m : M) (json : Json) :
    Ends (appendIntegerFromJson t m json) := by
  unfold appendIntegerFromJson
  split
  · exact append_ends m _
  · exact append_ends m _
  · apply (stoll_ends _).bind
    intro integer _
    split
    · exact append_ends m _
    · exact .throwExn _ _
  · exact .throwExn _ _

theorem fillVariant_ends {size : Nat} (below : EndsBelow size fill) (m : M) {json : Json}
    (light : json.weight ≤ size) : Ends (fillVariant fill m json) := by
  unfold fillVariant
  split
  · split
    · rename_i variant value found found'
      cases variant with
      | string sig =>
          have smaller : sig.length + value.weight < size :=
            Nat.lt_of_lt_of_le (variant_lighter found found') light
          apply Ends.bind (.ok sig)
          intro _ same
          cases same
          apply Ends.bind (.orThrow _ _)
          intro m' opened
          apply (below sig value smaller (split_ends_of_variant validates opened) m').bind
          intro m'' _
          exact .orThrow _ _
      | _ => exact .throwExn _ _
    · exact .throwExn _ _
  · exact .throwExn _ _

theorem fillDictEntry_ends {size : Nat} (below : EndsBelow size fill) (m : M) {elementSig : Str}
    {item : Str × Json} (some : 2 < size) (light : elementSig.length + item.2.weight < size) :
    Ends (fillDictEntry fill elementSig m item) := by
  unfold fillDictEntry
  apply Ends.bind (.orThrow _ _)
  intro m₁ opened
  have splits := split_ends_of_entry validates opened
  have keyShort : (elementSig.take 1).length ≤ 1 := by
    rw [List.length_take]
    omega
  have valueShort : (elementSig.drop 1).length ≤ elementSig.length := by
    rw [List.length_drop]
    omega
  rw [Cxx.substr_of_le 1 (Nat.zero_le _), List.drop_zero, Cxx.bind_ok]
  apply (below _ _ (by simp only [Json.weight]; omega) splits.1 m₁).bind
  intro m₂ _
  by_cases beyond : elementSig.length < 1
  · simp only [Cxx.substrFrom, beyond, ↓reduceIte, Cxx.bind_throwExn]
    exact .throwExn _ _
  · simp only [Cxx.substrFrom, beyond, ↓reduceIte, Cxx.bind_ok]
    apply (below _ _ (by omega) splits.2 m₂).bind
    intro m₃ _
    exact .orThrow _ _

omit validates [MessageWriter M] in
theorem substr_ends (s : Str) (pos n : Nat) : Ends (Cxx.substr s pos n) := by
  unfold Cxx.substr
  split
  · exact .throwExn _ _
  · exact .ok _

omit validates [MessageWriter M] in
theorem substrFrom_ends (s : Str) (pos : Nat) : Ends (Cxx.substrFrom s pos) := by
  unfold Cxx.substrFrom
  split
  · exact .throwExn _ _
  · exact .ok _

theorem fillArray_ends {currentSig : Str} {json : Json}
    (below : EndsBelow (currentSig.length + json.weight) fill) (m : M) :
    Ends (fillArray fill m currentSig json) := by
  unfold fillArray
  split
  · apply (substrFrom_ends _ _).bind
    intro arraySig arrayText
    have arrayLength := Cxx.length_of_substrFrom arrayText
    apply (substr_ends _ _ _).bind
    intro elementSig elementText
    have elementShort := Cxx.length_lt_of_substr elementText Nat.one_pos
    apply Ends.bind (.orThrow _ _)
    intro m₁ opened
    have splits := split_ends_of_array validates opened
    apply Ends.bind
    · unfold fillElements
      split
      · rename_i dict
        have long := Cxx.length_of_charAt dict (by decide)
        have heavy := json.weight_pos
        apply Ends.foldlM
        intro item inside m₂
        have lighter := Json.item_weight_lt inside
        exact fillDictEntry_ends validates below m₂ (by omega) (by omega)
      · apply Ends.foldlM
        intro item inside m₂
        have lighter := Json.element_weight_lt inside
        exact below _ _ (by omega) splits m₂
    · intro m₃ _
      exact .orThrow _ _
  · exact .throwExn _ _

theorem fillStruct_ends {currentSig : Str} {json : Json}
    (below : EndsBelow (currentSig.length + json.weight) fill) (m : M) :
    Ends (fillStruct fill m currentSig json) := by
  unfold fillStruct
  apply (substr_ends _ _ _).bind
  intro elementSig elementText
  have elementShort := Cxx.length_lt_of_substr elementText Nat.one_pos
  apply Ends.bind (.orThrow _ _)
  intro m₁ opened
  apply (below _ _ (by omega) (split_ends_of_struct validates opened) m₁).bind
  intro m₂ _
  exact .orThrow _ _

theorem fillPiece_ends {currentSig : Str} {json : Json}
    (below : EndsBelow (currentSig.length + json.weight) fill) (m : M) :
    Ends (fillPiece fill m currentSig json) := by
  unfold fillPiece
  split
  · split
    · exact append_ends m _
    · exact .throwExn _ _
  iterate 7 exact appendIntegerFromJson_ends _ m json
  · split
    · exact append_ends m _
    · exact .throwExn _ _
  · split
    · exact append_ends m _
    · exact .throwExn _ _
  · exact fillVariant_ends validates below m (Nat.le_add_left _ _)
  · exact fillArray_ends validates below m
  · exact fillStruct_ends validates below m
  · exact .ok _

omit validates [MessageWriter M] in
theorem fillPieces_ends {sig : Str} {completeSigs : List Str} {json : Json}
    (split : SignatureUtils.split sig = .ok completeSigs) (several : 1 < completeSigs.length)
    (below : EndsBelow (sig.length + json.weight) fill) (m : M) :
    Ends (fillPieces fill m completeSigs json) := by
  unfold fillPieces
  split
  · split
    · apply Ends.foldlM
      intro call inside m'
      have piece : Ends (SignatureUtils.split call.1) := by
        rw [SignatureUtils.split_piece split (List.of_mem_zip inside).1]
        exact .ok _
      exact below _ _ (piece_smaller split several inside) piece m'
    · exact .throwExn _ _
  · exact .throwExn _ _

theorem fillCall_ends {sig : Str} {json : Json} (splits : Ends (SignatureUtils.split sig))
    (below : EndsBelow (sig.length + json.weight) fill) (m : M) : Ends (fillCall fill m sig json) := by
  unfold fillCall
  apply splits.bind
  intro completeSigs ok
  split
  · exact .ok _
  · rename_i currentSig
    have same : currentSig = sig := SignatureUtils.split_single ok
    rw [← same] at below
    exact fillPiece_ends validates below m
  · rename_i notNone notOne
    exact fillPieces_ends ok (several_of_split notNone notOne) below m

/-- The calls get smaller and smaller, and each is on a signature that can be split:
the one above it opened a container with it. -/
theorem fillMessage_ends {sig : Str} (splits : Ends (SignatureUtils.split sig)) (json : Json) (m : M) :
    Ends (fillMessage m sig json) := by
  induction size : sig.length + json.weight using Nat.strong_induction_on generalizing sig json m with
  | _ size ih =>
    rw [fillMessage_eq]
    apply fillCall_ends validates splits
    intro sig' json' smaller splits' m'
    exact ih _ (by omega) splits' json' m' rfl

end Ends

/-- The recursion ends on every request, however deep its variants are nested, exactly
where the splitter ends on the signature it starts with; it never nests deeper than the
signature is long and the value heavy. -/
theorem fillMessage_terminates {M : Type} [MessageWriter M] (validates : Validates M) :
    (∀ sig json (m : M), Ends (fillMessage m sig json) ↔ SignatureUtils.Terminates sig) ∧
    (∀ sig json (m : M) calls, sig.length + json.weight ≤ calls →
      fillLoop calls m sig json = fillMessage m sig json) ∧
    ∀ json (m : M), Ends (fillVariant fillMessage m json) := by
  refine ⟨?_, ?_, ?_⟩
  · intro sig json m
    rw [← SignatureUtils.split_ends_iff]
    constructor
    · intro ends
      rw [fillMessage_eq] at ends
      exact ends.of_bind
    · intro splits
      exact fillMessage_ends validates splits json m
  · intro sig json m calls enough
    exact (fillLoop_enough (Dbus.writeAlike_self M) enough (Nat.le_refl _) rfl).eq
  · intro json m
    have below : EndsBelow json.weight (fillMessage : Filler M) := by
      intro sig json' _ splits m'
      exact fillMessage_ends validates splits json' m'
    exact fillVariant_ends validates below m (Nat.le_refl _)

/-- A variant in a variant whose inner signature is a lone bracket: the recursion ends
where the inner variant is opened. -/
theorem fillMessage_terminates_nested :
    Ends (fillMessage Draft.empty "v".toList
      (.object [("value".toList, .object [("value".toList, .null), ("variant".toList, .string ['('])]),
        ("variant".toList, .string "v".toList)])) :=
  ((fillMessage_terminates (validates_lawful Draft)).1 _ _ _).mpr ⟨2, by decide⟩

end Dbus2Http.Json2Message

import Dbus2Http.SignaturePieces
import Mathlib.Logic.Relation

set_option autoImplicit false

namespace Dbus2Http.SignatureUtils

open Brackets
open Cxx (Str)
open Dbus (Basic Ty)

/-! ### Termination -/

/-- The loop ends after some number of rounds, with a list or with an exception. -/
def Terminates (sig : Str) : Prop := ∃ rounds, splitLoop rounds sig [] ≠ .error .outOfFuel

/-- One round of the loop that does not throw, as it changes the remaining signature. -/
inductive Round : Str → Str → Prop
  | cut {remainSig piece rest : Str} (more : remainSig ≠ [])
      (cut : splitPiece remainSig = .ok (piece, rest)) : Round remainSig rest

/-- Every round that is reached from the signature shortens what remains of it. -/
def Shortens (sig : Str) : Prop :=
  ∀ remainSig rest, Relation.ReflTransGen Round sig remainSig → Round remainSig rest →
    rest.length < remainSig.length

/-- After some pieces the signature opens a struct or a dict and never closes it. -/
def RunsIntoUnclosed (sig : Str) : Prop :=
  ∃ pieces rest, sig = List.flatten pieces ++ rest ∧ (∀ piece ∈ pieces, Piece piece) ∧ Unclosed rest

theorem Unclosed.ne_nil {sig : Str} (unclosed : Unclosed sig) : sig ≠ [] := by
  cases unclosed <;> exact List.cons_ne_nil _ _

theorem RunsIntoUnclosed.cons {piece rest : Str} (known : Piece piece)
    (runs : RunsIntoUnclosed rest) : RunsIntoUnclosed (piece ++ rest) := by
  obtain ⟨pieces, last, rfl, all, unclosed⟩ := runs
  refine ⟨piece :: pieces, last, by simp, ?_, unclosed⟩
  intro p inside
  rcases List.mem_cons.mp inside with here | there
  · rw [here]
    exact known
  · exact all p there

/-- A round never asks for more fuel. -/
theorem splitPiece_ne_outOfFuel (sig : Str) : splitPiece sig ≠ .error .outOfFuel := by
  have cut : ∀ pos, cutAt sig pos ≠ .error .outOfFuel := by
    intro pos
    rw [cutAt_eq]
    split <;> simp [Cxx.throwExn]
  unfold splitPiece
  simp only
  repeat' split
  all_goals first
    | exact cut _
    | simp [Cxx.throwExn]

/-- A signature that runs into an open bracket keeps the loop going for ever. -/
theorem splitLoop_unclosed {pieces : List Str} {rest : Str} (known : ∀ piece ∈ pieces, Piece piece)
    (unclosed : Unclosed rest) (rounds : Nat) (result : List Str) :
    splitLoop rounds (pieces.flatten ++ rest) result = .error .outOfFuel := by
  induction pieces generalizing rounds result with
  | nil => exact splitLoop_stuck unclosed.ne_nil (splitPiece_unclosed unclosed) rounds result
  | cons piece pieces ih =>
      have first := known piece List.mem_cons_self
      have more : piece ++ (pieces.flatten ++ rest) ≠ [] := by simp [first.ne_nil]
      have others := ih fun other inside => known other (List.mem_cons_of_mem _ inside)
      rw [List.flatten_cons, List.append_assoc]
      cases rounds with
      | zero => rfl
      | succ rounds =>
          simp only [splitLoop, more, ↓reduceIte, splitPiece_piece first, Cxx.bind_ok]
          exact others rounds _

theorem split_outOfFuel {sig : Str} (endless : split sig = .error .outOfFuel) :
    RunsIntoUnclosed sig := by
  induction size : sig.length using Nat.strong_induction_on generalizing sig with
  | _ size ih =>
    by_cases done : sig = []
    · rw [done, split_nil] at endless
      contradiction
    · rw [split_eq done] at endless
      cases cut : splitPiece sig with
      | error fault =>
          rw [cut, Cxx.bind_error, Except.error.injEq] at endless
          rw [endless] at cut
          exact absurd cut (splitPiece_ne_outOfFuel sig)
      | ok pair =>
          obtain ⟨piece, rest⟩ := pair
          rcases piece_of_splitPiece cut with ⟨_, unclosed⟩ | known
          · exact ⟨[], sig, rfl, by simp, unclosed⟩
          · have whole := splitPiece_append cut
            have length := congrArg List.length whole
            have positive := List.length_pos_iff.mpr known.ne_nil
            rw [List.length_append] at length
            have later : split rest = .error .outOfFuel := by
              rw [cut, Cxx.bind_ok] at endless
              cases tail : split rest with
              | error fault =>
                  simp only [tail, Cxx.bind_error] at endless
                  rw [← endless]
              | ok pieces => simp [tail] at endless
            rw [← whole]
            exact (ih rest.length (by omega) later rfl).cons known

/-- The loop meets what remains behind each piece. -/
theorem reaches_pieces {pieces : List Str} {rest : Str} (known : ∀ piece ∈ pieces, Piece piece) :
    Relation.ReflTransGen Round (pieces.flatten ++ rest) rest := by
  induction pieces with
  | nil => exact .refl
  | cons piece pieces ih =>
      have first := known piece List.mem_cons_self
      have others := ih fun other inside => known other (List.mem_cons_of_mem _ inside)
      rw [List.flatten_cons, List.append_assoc]
      exact .head (.cut (by simp [first.ne_nil]) (splitPiece_piece first _)) others

/-- What the loop meets is what remains behind some pieces, as long as it is not stuck. -/
theorem pieces_of_reaches {sig remainSig : Str} (closes : ¬ RunsIntoUnclosed sig)
    (reached : Relation.ReflTransGen Round sig remainSig) :
    ∃ pieces, sig = List.flatten pieces ++ remainSig ∧ ∀ piece ∈ pieces, Piece piece := by
  induction reached with
  | refl => exact ⟨[], rfl, by simp⟩
  | @tail before after _ round ih =>
      obtain ⟨pieces, whole, known⟩ := ih
      obtain ⟨more, cut⟩ := round
      rename_i piece
      rcases piece_of_splitPiece cut with ⟨_, unclosed⟩ | last
      · exact absurd ⟨pieces, before, whole, known, unclosed⟩ closes
      · refine ⟨pieces ++ [piece], ?_, ?_⟩
        · rw [whole, ← splitPiece_append cut]
          simp
        · intro p inside
          rcases List.mem_append.mp inside with earlier | here
          · exact known p earlier
          · rw [List.mem_singleton.mp here]
            exact last

theorem terminates_iff (sig : Str) : Terminates sig ↔ ¬ RunsIntoUnclosed sig := by
  constructor
  · rintro ⟨rounds, ended⟩ ⟨pieces, rest, rfl, known, unclosed⟩
    exact ended (splitLoop_unclosed known unclosed rounds [])
  · intro closes
    exact ⟨sig.length + 1, fun endless => closes (split_outOfFuel endless)⟩

theorem shortens_iff (sig : Str) : Shortens sig ↔ ¬ RunsIntoUnclosed sig := by
  constructor
  · rintro shortens ⟨pieces, rest, rfl, known, unclosed⟩
    have stuck : Round rest rest := .cut unclosed.ne_nil (splitPiece_unclosed unclosed)
    have shorter := shortens rest rest (reaches_pieces known) stuck
    omega
  · intro closes remainSig rest reached round
    obtain ⟨pieces, whole, known⟩ := pieces_of_reaches closes reached
    obtain ⟨more, cut⟩ := round
    rcases piece_of_splitPiece cut with ⟨_, unclosed⟩ | last
    · exact absurd ⟨pieces, remainSig, whole, known, unclosed⟩ closes
    · have length := congrArg List.length (splitPiece_append cut)
      have positive := List.length_pos_iff.mpr last.ne_nil
      rw [List.length_append] at length
      omega

/-- The splitter comes to an end, each of its rounds shortening the signature, exactly on
the signatures that do not run into a bracket that is never closed. -/
theorem split_terminates_iff (sig : Str) :
    (Terminates sig ↔ ¬ RunsIntoUnclosed sig) ∧ (Shortens sig ↔ ¬ RunsIntoUnclosed sig) :=
  ⟨terminates_iff sig, shortens_iff sig⟩

/-- A lone bracket keeps the splitter running. -/
theorem split_lone_bracket : ¬ ∀ sig, Terminates sig ∧ Shortens sig := by
  intro always
  have unmatched : Unmatched '(' ')' [] := by
    intro before after shape
    simp at shape
  exact (terminates_iff ['(']).mp (always ['(']).1 ⟨[], ['('], rfl, by simp, .struct unmatched⟩

/-! ### The type grammar -/

/-- The single complete types built from the codes the splitter accepts. -/
inductive Accepted : Ty → Prop
  | basic {b : Basic} (known : b.code ∈ plainCodes) : Accepted (.basic b)
  | variant : Accepted .variant
  | struct {fields : List Ty} (some : fields ≠ []) (each : ∀ field ∈ fields, Accepted field) :
      Accepted (.struct fields)
  | array {elem : Ty} (inner : Accepted elem) : Accepted (.array elem)
  | dict {key : Basic} {value : Ty} (known : key.code ∈ plainCodes) (inner : Accepted value) :
      Accepted (.array (.entry (.basic key) value))

/-- An array whose elements are arrays. -/
def NestsArrays (t : Ty) : Prop := ∃ elem, t = .array (.array elem)

theorem Accepted.splits {t : Ty} (accepted : Accepted t) (flat : ¬ NestsArrays t) : Splits t := by
  cases accepted with
  | @basic b known =>
      have refused : Basic.objectPath.code ∉ plainCodes ∧ Basic.signature.code ∉ plainCodes := by decide
      constructor
      · rintro rfl
        exact refused.1 known
      · rintro rfl
        exact refused.2 known
  | variant => trivial
  | struct => trivial
  | dict => trivial
  | @array elem inner =>
      cases elem with
      | array elem => exact absurd ⟨elem, rfl⟩ flat
      | _ => trivial

/-- An array of arrays at the front is not cut off whole. -/
theorem split_nested_ne {elem : Ty} {ts : List Ty} :
    split (Ty.texts (.array (.array elem) :: ts)) ≠
      .ok ((Ty.array (.array elem) :: ts).map Ty.text) := by
  intro ok
  have text : Ty.texts (.array (.array elem) :: ts) = 'a' :: 'a' :: (elem.text ++ Ty.texts ts) := by simp
  rw [text, split_eq (List.cons_ne_nil _ _), splitPiece_array (by decide) (by decide),
    Cxx.bind_ok] at ok
  obtain ⟨others, _, same⟩ := Cxx.bind_eq_ok.mp ok
  rw [List.map_cons, Ty.text_array, Ty.text_array] at same
  have first := (List.cons.inj (Except.ok.inj same)).1
  simp [elem.text_ne_nil] at first

/-- The splitter cuts a sequence of types into its types exactly when none of them is an
array of arrays. -/
theorem split_types_iff {ts : List Ty} (accepted : ∀ t ∈ ts, Accepted t) :
    split (Ty.texts ts) = .ok (ts.map Ty.text) ↔ ∀ t ∈ ts, ¬ NestsArrays t := by
  constructor
  · intro ok
    induction ts with
    | nil => simp
    | cons t ts ih =>
        have flat : ¬ NestsArrays t := by
          rintro ⟨elem, rfl⟩
          exact split_nested_ne ok
        have cut := splitPiece_text ((accepted t List.mem_cons_self).splits flat) (Ty.texts ts)
        rw [Ty.texts_cons, split_eq (by simp [t.text_ne_nil]), cut, Cxx.bind_ok] at ok
        obtain ⟨others, restOk, same⟩ := Cxx.bind_eq_ok.mp ok
        obtain rfl : others = ts.map Ty.text := (List.cons.inj (Except.ok.inj same)).2
        intro u inside
        rcases List.mem_cons.mp inside with here | there
        · rw [here]
          exact flat
        · exact ih (fun u inside => accepted u (List.mem_cons_of_mem _ inside)) restOk u there
  · intro flat
    exact split_texts fun t inside => (accepted t inside).splits (flat t inside)

/-- `a{sv}` and `(aai)` are cut off whole. -/
theorem split_types_witness :
    split (Ty.texts [.array (.entry (.basic .string) .variant),
        .struct [.array (.array (.basic (.int .int32)))]]) =
      .ok ["a{sv}".toList, "(aai)".toList] := by
  have number : Accepted (.basic (.int .int32)) := .basic (by decide)
  have accepted : ∀ t ∈ [Ty.array (.entry (.basic .string) .variant),
      .struct [.array (.array (.basic (.int .int32)))]], Accepted t := by
    intro t inside
    rcases List.mem_cons.mp inside with rfl | last
    · exact .dict (by decide) .variant
    · rw [List.mem_singleton.mp last]
      exact .struct (by simp) (by simpa using (Accepted.array number).array)
  exact (split_types_iff accepted).mpr (by simp [NestsArrays])

/-- `aai` is cut after its second character. -/
theorem split_array_of_arrays :
    ¬ ∀ ts : List Ty, (∀ t ∈ ts, Accepted t) → split (Ty.texts ts) = .ok (ts.map Ty.text) := by
  intro always
  have number : Accepted (.basic (.int .int32)) := .basic (by decide)
  have cut := always [.array (.array (.basic (.int .int32)))] (by simpa using number.array.array)
  have pieces : split "aai".toList = .ok ["aa".toList, "i".toList] := by decide
  have same := pieces.symm.trans cut
  revert same
  decide

/-! ### Concatenation -/

/-- A piece of a signature: it is split into itself, and a bracket it opens at its start is
closed by its last character. -/
structure WellCut (piece : Str) : Prop where
  nonempty : piece ≠ []
  alone : split piece = .ok [piece]
  struct : ∀ s, piece = '(' :: s → Closed '(' ')' piece
  structs : ∀ s, piece = 'a' :: '(' :: s → Closed '(' ')' ('(' :: s)
  dict : ∀ s, piece = 'a' :: '{' :: s → Closed '{' '}' ('{' :: s)

theorem Piece.wellCut {piece : Str} (known : Piece piece) : WellCut piece where
  nonempty := known.ne_nil
  alone := split_of_piece known
  struct := by
    rintro s rfl
    generalize shape : '(' :: s = piece at known
    cases known with
    | plain code =>
        rw [← (List.cons.inj shape).1] at code
        exact absurd code (by decide)
    | struct closed => exact closed
    | array => cases shape
    | structs => cases shape
    | dict => cases shape
  structs := by
    rintro s rfl
    generalize shape : 'a' :: '(' :: s = piece at known
    cases known with
    | plain => cases shape
    | struct closed =>
        obtain ⟨inner, rfl, _⟩ := closed
        cases shape
    | array notStruct => exact absurd (List.cons.inj (List.cons.inj shape).2).1.symm notStruct
    | structs closed =>
        rw [(List.cons.inj shape).2]
        exact closed
    | dict closed =>
        obtain ⟨inner, rfl, _⟩ := closed
        cases shape
  dict := by
    rintro s rfl
    generalize shape : 'a' :: '{' :: s = piece at known
    cases known with
    | plain => cases shape
    | struct closed =>
        obtain ⟨inner, rfl, _⟩ := closed
        cases shape
    | array _ notDict => exact absurd (List.cons.inj (List.cons.inj shape).2).1.symm notDict
    | structs closed =>
        obtain ⟨inner, rfl, _⟩ := closed
        cases shape
    | dict closed =>
        rw [(List.cons.inj shape).2]
        exact closed

/-- Wherever the splitter returns, its pieces make up the signature and are cut well, and it
splits two signatures in a row one after the other. -/
theorem split_homomorphism {p q : Str} {pieces others : List Str} (first : split p = .ok pieces)
    (second : split q = .ok others) :
    pieces.flatten = p ∧ (∀ piece ∈ pieces, WellCut piece) ∧
      split (p ++ q) = .ok (pieces ++ others) := by
  obtain ⟨whole, known⟩ := split_eq_ok_iff.mp first
  obtain ⟨whole', known'⟩ := split_eq_ok_iff.mp second
  refine ⟨whole, fun piece inside => (known piece inside).wellCut, ?_⟩
  rw [split_eq_ok_iff]
  constructor
  · rw [List.flatten_append, whole, whole']
  · intro piece inside
    rcases List.mem_append.mp inside with left | right
    · exact known piece left
    · exact known' piece right

/-- `a{s)}(i)` is no signature, and its pieces are cut well all the same. -/
theorem split_homomorphism_witness :
    WellCut "a{s)}".toList ∧ split ("a{s)}(i)".toList ++ "v".toList) =
      .ok (["a{s)}".toList, "(i)".toList] ++ ["v".toList]) := by
  have first : split "a{s)}(i)".toList = .ok ["a{s)}".toList, "(i)".toList] := by decide
  have second : split "v".toList = .ok ["v".toList] := by decide
  have facts := split_homomorphism first second
  exact ⟨facts.2.1 _ List.mem_cons_self, facts.2.2⟩

end Dbus2Http.SignatureUtils

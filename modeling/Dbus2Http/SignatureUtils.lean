import Dbus2Http.SignatureGrammar

set_option autoImplicit false

namespace Dbus2Http.SignatureUtils

open Cxx (Str Run throwExn substr substrFrom charAt)
open Dbus (Basic Ty)

/-! ### The splitter -/

/-- The loop of `find_match_bracket` at position `i`; its last step, at the end of the
string, reads the terminating zero. -/
def scanBracket (left right : Char) : Nat → Nat → Str → Nat
  | count, i, [] => if count = 0 then i else 0
  | count, i, c :: rest =>
      if count = 0 then i
      else if c = left then scanBracket left right (count + 1) (i + 1) rest
      else if c = right then scanBracket left right (count - 1) (i + 1) rest
      else scanBracket left right count (i + 1) rest

def findMatchBracket (str : Str) (leftIndex : Nat) (left right : Char) : Nat :=
  scanBracket left right 1 (leftIndex + 1) (str.drop (leftIndex + 1))

/-- The codes that are a piece of their own. -/
def plainCodes : Str := "bynqiuxtdshv".toList

/-- The codes that are known and refused. -/
def unsupportedCodes : Str := '\x00' :: "reogm*?@&^".toList

/-- The piece up to `pos`, and what remains after it. -/
def cutAt (remainSig : Str) (pos : Nat) : Run (Str × Str) := do
  let piece ← substr remainSig 0 pos
  let rest ← substrFrom remainSig pos
  .ok (piece, rest)

/-- One round of the loop of `split`. -/
def splitPiece (remainSig : Str) : Run (Str × Str) :=
  let front := charAt remainSig 0
  if front ∈ plainCodes then cutAt remainSig 1
  else if front = '(' then cutAt remainSig (findMatchBracket remainSig 0 '(' ')')
  else if front = 'a' then
    if charAt remainSig 1 = '(' then cutAt remainSig (findMatchBracket remainSig 1 '(' ')')
    else if charAt remainSig 1 = '{' then cutAt remainSig (findMatchBracket remainSig 1 '{' '}')
    else cutAt remainSig 2
  else if front ∈ unsupportedCodes then
    throwExn .invalidArgument ("Unsupported signature: ".toList ++ remainSig.take 1)
  else throwExn .invalidArgument ("Unknown signature: ".toList ++ remainSig.take 1)

def splitLoop : Nat → Str → List Str → Run (List Str)
  | 0, _, _ => .error .outOfFuel
  | fuel + 1, remainSig, result =>
      if remainSig = [] then .ok result
      else do
        let (piece, rest) ← splitPiece remainSig
        splitLoop fuel rest (result ++ [piece])

/-- A round that removes nothing is repeated for ever, so more rounds than characters
are never needed. -/
def split (sig : Str) : Run (List Str) := splitLoop (sig.length + 1) sig []

/-! ### The loop as a recursion -/

theorem cutAt_eq (remainSig : Str) (pos : Nat) :
    cutAt remainSig pos =
      if remainSig.length < pos then throwExn .outOfRange "basic_string::substr".toList
      else .ok (remainSig.take pos, remainSig.drop pos) := by
  unfold cutAt
  rw [Cxx.substr_of_le pos (Nat.zero_le _), List.drop_zero, Cxx.bind_ok]
  by_cases beyond : remainSig.length < pos
  · simp only [substrFrom, beyond, ↓reduceIte, Cxx.bind_throwExn]
  · simp only [substrFrom, beyond, ↓reduceIte, Cxx.bind_ok]

theorem cutAt_append {remainSig piece rest : Str} {pos : Nat}
    (cut : cutAt remainSig pos = .ok (piece, rest)) : piece ++ rest = remainSig := by
  rw [cutAt_eq] at cut
  by_cases beyond : remainSig.length < pos
  · simp [beyond] at cut
  · simp only [beyond, ↓reduceIte, Except.ok.injEq, Prod.mk.injEq] at cut
    rw [← cut.1, ← cut.2, List.take_append_drop]

theorem cutAt_exact (piece rest : Str) : cutAt (piece ++ rest) piece.length = .ok (piece, rest) := by
  have inside : ¬ (piece ++ rest).length < piece.length := by
    rw [List.length_append]
    omega
  rw [cutAt_eq, if_neg inside, List.take_left, List.drop_left]

theorem splitPiece_append {remainSig piece rest : Str}
    (cut : splitPiece remainSig = .ok (piece, rest)) : piece ++ rest = remainSig := by
  unfold splitPiece at cut
  simp only at cut
  repeat' split at cut
  all_goals first
    | exact cutAt_append cut
    | exact absurd cut (Cxx.throwExn_ne_ok _ _ _)

/-- A round without a piece leaves the signature as it was, and the loop never ends. -/
theorem splitLoop_stuck {remainSig rest : Str} (more : remainSig ≠ [])
    (cut : splitPiece remainSig = .ok ([], rest)) (fuel : Nat) (result : List Str) :
    splitLoop fuel remainSig result = .error .outOfFuel := by
  have same : rest = remainSig := splitPiece_append cut
  induction fuel generalizing result with
  | zero => rfl
  | succ fuel ih =>
      simp only [splitLoop, more, ↓reduceIte, cut, Cxx.bind_ok, same]
      exact ih _

/-- The pieces are collected in order behind those found before. -/
theorem splitLoop_result (fuel : Nat) (remainSig : Str) (result : List Str) :
    splitLoop fuel remainSig result = (splitLoop fuel remainSig []).map (result ++ ·) := by
  induction fuel generalizing remainSig result with
  | zero => rfl
  | succ fuel ih =>
      unfold splitLoop
      by_cases done : remainSig = []
      · simp [done, Except.map]
      · simp only [done, ↓reduceIte, List.nil_append]
        cases splitPiece remainSig with
        | error fault => rfl
        | ok cut =>
            simp only [Cxx.bind_ok]
            rw [ih cut.2 (result ++ [cut.1]), ih cut.2 [cut.1]]
            cases splitLoop fuel cut.2 [] with
            | error fault => rfl
            | ok pieces => simp [Except.map]

theorem splitLoop_fuel {remainSig : Str} {fuel more : Nat} (enough : remainSig.length < fuel)
    (enough' : remainSig.length < more) (result : List Str) :
    splitLoop fuel remainSig result = splitLoop more remainSig result := by
  induction fuel generalizing remainSig more result with
  | zero => omega
  | succ fuel ih =>
      obtain ⟨more, rfl⟩ := Nat.exists_eq_succ_of_ne_zero (show more ≠ 0 by omega)
      by_cases done : remainSig = []
      · simp only [splitLoop, done, ↓reduceIte]
      · cases cut : splitPiece remainSig with
        | error fault => simp only [splitLoop, done, ↓reduceIte, cut, Cxx.bind_error]
        | ok pair =>
            obtain ⟨piece, rest⟩ := pair
            by_cases empty : piece = []
            · rw [empty] at cut
              rw [splitLoop_stuck done cut, splitLoop_stuck done cut]
            · have length := congrArg List.length (splitPiece_append cut)
              have positive := List.length_pos_iff.mpr empty
              rw [List.length_append] at length
              simp only [splitLoop, done, ↓reduceIte, cut, Cxx.bind_ok]
              exact ih (by omega) (by omega) _

@[simp] theorem split_nil : split [] = .ok [] := rfl

/-- The first piece, then the pieces of what remains. -/
theorem split_eq {sig : Str} (more : sig ≠ []) :
    split sig = (do
      let (piece, rest) ← splitPiece sig
      let pieces ← split rest
      .ok (piece :: pieces)) := by
  cases cut : splitPiece sig with
  | error fault => simp only [split, splitLoop, more, ↓reduceIte, cut, Cxx.bind_error]
  | ok pair =>
      obtain ⟨piece, rest⟩ := pair
      by_cases empty : piece = []
      · rw [empty] at cut
        have same : rest = sig := splitPiece_append cut
        have stuck : split sig = .error .outOfFuel := splitLoop_stuck more cut _ _
        simp only [Cxx.bind_ok, same, stuck, Cxx.bind_error]
      · have length := congrArg List.length (splitPiece_append cut)
        have positive := List.length_pos_iff.mpr empty
        rw [List.length_append] at length
        have inner : splitLoop sig.length rest [piece] = (split rest).map ([piece] ++ ·) := by
          rw [splitLoop_result, split, splitLoop_fuel (by omega) (Nat.lt_succ_self _)]
        have step : split sig = splitLoop sig.length rest [piece] := by
          simp only [split, splitLoop, more, ↓reduceIte, cut, Cxx.bind_ok, List.nil_append]
        rw [step, inner]
        simp only [Cxx.bind_ok]
        cases split rest <;> rfl

/-- Wherever the splitter returns, its pieces are not empty and make up the signature. -/
theorem split_pieces {sig : Str} {pieces : List Str} (ok : split sig = .ok pieces) :
    pieces.flatten = sig ∧ ∀ piece ∈ pieces, piece ≠ [] := by
  induction size : sig.length using Nat.strong_induction_on generalizing sig pieces with
  | _ size ih =>
    by_cases done : sig = []
    · have none : pieces = [] := by simpa [done, eq_comm] using ok
      simp [none, done]
    · have opened := ok
      rw [split_eq done] at opened
      obtain ⟨⟨piece, rest⟩, cut, later⟩ := Cxx.bind_eq_ok.mp opened
      obtain ⟨others, restOk, same⟩ := Cxx.bind_eq_ok.mp later
      have whole := splitPiece_append cut
      have nonempty : piece ≠ [] := by
        intro empty
        rw [empty] at cut
        have stuck : split sig = .error .outOfFuel := splitLoop_stuck done cut _ _
        rw [stuck] at ok
        contradiction
      have length := congrArg List.length whole
      have positive := List.length_pos_iff.mpr nonempty
      rw [List.length_append] at length
      have tail := ih rest.length (by omega) restOk rfl
      have listed : piece :: others = pieces := Except.ok.inj same
      rw [← listed]
      refine ⟨?_, ?_⟩
      · rw [List.flatten_cons, tail.1, whole]
      · intro p inside
        rcases List.mem_cons.mp inside with here | there
        · rw [here]
          exact nonempty
        · exact tail.2 p there

/-- A signature that is one piece is that piece. -/
theorem split_single {sig piece : Str} (ok : split sig = .ok [piece]) : piece = sig := by
  simpa using (split_pieces ok).1

/-- A piece among several is shorter than the signature. -/
theorem split_piece_length {sig piece : Str} {pieces : List Str} (ok : split sig = .ok pieces)
    (several : 1 < pieces.length) (inside : piece ∈ pieces) : piece.length < sig.length := by
  have facts := split_pieces ok
  obtain ⟨before, after, rfl⟩ := List.append_of_mem inside
  have others : 0 < (before ++ after).flatten.length := by
    rw [List.length_pos_iff, ne_eq, List.flatten_eq_nil_iff]
    intro empty
    cases rest : before ++ after with
    | nil =>
        have length := congrArg List.length rest
        simp only [List.length_append, List.length_cons, List.length_nil] at length several
        omega
    | cons q qs =>
        have member : q ∈ before ++ after := by simp [rest]
        apply facts.2 q _ (empty q member)
        rcases List.mem_append.mp member with left | right
        · exact List.mem_append_left _ left
        · exact List.mem_append_right _ (List.mem_cons_of_mem _ right)
  have length := congrArg List.length facts.1
  simp only [List.flatten_append, List.flatten_cons, List.length_append] at length others
  omega

end Dbus2Http.SignatureUtils

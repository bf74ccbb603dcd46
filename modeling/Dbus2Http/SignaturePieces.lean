import Dbus2Http.BracketMatching
import Dbus2Http.SignatureUtils

set_option autoImplicit false

namespace Dbus2Http.SignatureUtils

open Brackets
open Cxx (Str throwExn substr substrFrom charAt)
open Dbus (Basic Ty)

/-! ### What the scan finds -/

theorem scanBracket_plain {left right c : Char} (notLeft : c ≠ left) (notRight : c ≠ right)
    {count : Nat} (inside : 0 < count) (i : Nat) (rest : Str) :
    scanBracket left right count i (c :: rest) = scanBracket left right count (i + 1) rest := by
  simp only [scanBracket, Nat.ne_of_gt inside, notLeft, notRight, ↓reduceIte]

/-- The scan ends behind the bracket that closes the text. -/
theorem scanBracket_close {left right : Char} (different : right ≠ left) (i : Nat) (rest : Str) :
    scanBracket left right 1 i (right :: rest) = i + 1 := by
  cases rest <;> simp [scanBracket, different]

/-- The search that starts at the bracket behind `front` scans what follows it. -/
theorem findMatchBracket_eq (front s : Str) (left right : Char) :
    findMatchBracket (front ++ left :: s) front.length left right =
      scanBracket left right 1 (front.length + 1) s := by
  have dropped : (front ++ left :: s).drop (front.length + 1) = s := by
    rw [← List.drop_drop, List.drop_left, List.drop_one, List.tail_cons]
  rw [findMatchBracket, dropped]

/-- From inside `depth + 1` brackets the scan passes the text up to the one that closes them. -/
theorem scanBracket_encloses {left right : Char} (different : right ≠ left) {depth : Nat}
    {before : Str} (encloses : Encloses left right depth before) (i : Nat) (after : Str) :
    scanBracket left right (depth + 1) i (before ++ right :: after) = i + before.length + 1 := by
  induction before generalizing depth i with
  | nil =>
      obtain rfl := (encloses_nil depth).mp encloses
      exact scanBracket_close different i after
  | cons c before ih =>
      have length : i + (c :: before).length + 1 = i + 1 + before.length + 1 := by
        rw [List.length_cons]
        omega
      rw [List.cons_append, length]
      by_cases opens : c = left
      · rw [opens, encloses_open different] at encloses
        rw [scanBracket, if_neg (Nat.succ_ne_zero _), if_pos opens, ih encloses]
      · by_cases closes : c = right
        · cases depth with
          | zero =>
              rw [closes] at encloses
              exact absurd encloses (not_encloses_close different before)
          | succ depth =>
              rw [closes, encloses_close different] at encloses
              rw [scanBracket, if_neg (Nat.succ_ne_zero _), if_neg opens, if_pos closes,
                Nat.add_sub_cancel, ih encloses]
        · rw [encloses_other opens closes] at encloses
          rw [scanBracket_plain opens closes (Nat.succ_pos _), ih encloses]

/-- A scan that finds a bracket has found the one that closes those it started in. -/
theorem encloses_of_scanBracket {left right : Char} (different : right ≠ left) {depth i pos : Nat}
    {s : Str} (found : scanBracket left right (depth + 1) i s = pos) (positive : 0 < pos) :
    ∃ before after, s = before ++ right :: after ∧ Encloses left right depth before ∧
      pos = i + before.length + 1 := by
  induction s generalizing depth i with
  | nil =>
      rw [scanBracket, if_neg (Nat.succ_ne_zero _)] at found
      omega
  | cons c rest ih =>
      by_cases opens : c = left
      · rw [scanBracket, if_neg (Nat.succ_ne_zero _), if_pos opens] at found
        obtain ⟨before, after, shape, encloses, place⟩ := ih found
        refine ⟨c :: before, after, by rw [shape, List.cons_append], ?_, ?_⟩
        · rwa [opens, encloses_open different]
        · rw [List.length_cons]
          omega
      · by_cases closes : c = right
        · cases depth with
          | zero =>
              rw [closes, scanBracket_close different] at found
              refine ⟨[], rest, by rw [closes, List.nil_append], (encloses_nil 0).mpr rfl, ?_⟩
              simpa using found.symm
          | succ depth =>
              rw [scanBracket, if_neg (Nat.succ_ne_zero _), if_neg opens, if_pos closes,
                Nat.add_sub_cancel] at found
              obtain ⟨before, after, shape, encloses, place⟩ := ih found
              refine ⟨c :: before, after, by rw [shape, List.cons_append], ?_, ?_⟩
              · rwa [closes, encloses_close different]
              · rw [List.length_cons]
                omega
        · rw [scanBracket_plain opens closes (Nat.succ_pos _)] at found
          obtain ⟨before, after, shape, encloses, place⟩ := ih found
          refine ⟨c :: before, after, by rw [shape, List.cons_append], ?_, ?_⟩
          · rwa [encloses_other opens closes]
          · rw [List.length_cons]
            omega

/-- Where no bracket closes the one the search starts at, the search ends at zero. -/
theorem scanBracket_unmatched {left right : Char} (different : right ≠ left) {s : Str}
    (unmatched : Unmatched left right s) (i : Nat) : scanBracket left right 1 i s = 0 := by
  by_contra found
  obtain ⟨before, after, shape, balanced, _⟩ :=
    encloses_of_scanBracket different (rfl : scanBracket left right (0 + 1) i s = _)
      (Nat.pos_of_ne_zero found)
  exact unmatched before after shape balanced

theorem unmatched_of_scanBracket {left right : Char} (different : right ≠ left) {s : Str} {i : Nat}
    (missed : scanBracket left right 1 i s = 0) : Unmatched left right s := by
  intro before after shape balanced
  have found := scanBracket_encloses different balanced i after
  rw [← shape, Nat.zero_add, missed] at found
  omega

/-! ### The pieces of a signature -/

/-- The texts the splitter cuts off in one round. -/
inductive Piece : Str → Prop
  | plain {c : Char} (known : c ∈ plainCodes) : Piece [c]
  | struct {s : Str} (closed : Closed '(' ')' s) : Piece s
  | array {c : Char} (notStruct : c ≠ '(') (notDict : c ≠ '{') : Piece ['a', c]
  | structs {s : Str} (closed : Closed '(' ')' s) : Piece ('a' :: s)
  | dict {s : Str} (closed : Closed '{' '}' s) : Piece ('a' :: s)

/-- The texts that open a struct or a dict at their start and never close it. -/
inductive Unclosed : Str → Prop
  | struct {s : Str} (unmatched : Unmatched '(' ')' s) : Unclosed ('(' :: s)
  | structs {s : Str} (unmatched : Unmatched '(' ')' s) : Unclosed ('a' :: '(' :: s)
  | dict {s : Str} (unmatched : Unmatched '{' '}' s) : Unclosed ('a' :: '{' :: s)

theorem Piece.ne_nil {piece : Str} (cut : Piece piece) : piece ≠ [] := by
  cases cut with
  | struct closed =>
      obtain ⟨inner, rfl, _⟩ := closed
      exact List.cons_ne_nil _ _
  | _ => exact List.cons_ne_nil _ _

/-- Behind `front` the matching bracket of a closed text is its last one. -/
theorem findMatchBracket_closed {left right : Char} (different : right ≠ left) (front : Str)
    {s : Str} (closed : Closed left right s) (rest : Str) :
    findMatchBracket (front ++ (s ++ rest)) front.length left right = (front ++ s).length := by
  obtain ⟨inner, rfl, balanced⟩ := closed
  have regroup : front ++ (left :: (inner ++ [right]) ++ rest) =
      front ++ left :: (inner ++ right :: rest) := by simp
  rw [regroup, findMatchBracket_eq, ← Nat.zero_add 1, scanBracket_encloses different balanced]
  simp only [List.length_append, List.length_cons, List.length_nil]
  omega

/-- A signature that starts with `a` and not with a struct or a dict is cut after two
characters. -/
theorem splitPiece_array {c : Char} (notStruct : c ≠ '(') (notDict : c ≠ '{') (rest : Str) :
    splitPiece ('a' :: c :: rest) = .ok (['a', c], rest) := by
  have cut : cutAt ('a' :: c :: rest) 2 = .ok (['a', c], rest) := cutAt_exact ['a', c] rest
  have front : ('a' : Char) ∉ plainCodes := by decide
  simp only [splitPiece, charAt, List.getElem?_cons_zero, List.getElem?_cons_succ, Option.getD_some,
    front, notStruct, notDict, ↓reduceIte, cut]
  rfl

/-- A round cuts off a piece, whatever follows it. -/
theorem splitPiece_piece {piece : Str} (cut : Piece piece) (rest : Str) :
    splitPiece (piece ++ rest) = .ok (piece, rest) := by
  have notPlain : ('(' : Char) ∉ plainCodes := by decide
  have notPlain' : ('a' : Char) ∉ plainCodes := by decide
  cases cut with
  | @plain c known =>
      simp only [splitPiece, charAt, List.cons_append, List.nil_append, List.getElem?_cons_zero,
        Option.getD_some, known, ↓reduceIte]
      exact cutAt_exact [c] rest
  | @struct s closed =>
      have found := findMatchBracket_closed (by decide) [] closed rest
      obtain ⟨inner, rfl, _⟩ := closed
      have front : charAt ('(' :: (inner ++ [')']) ++ rest) 0 = '(' := rfl
      rw [List.nil_append, List.nil_append, List.length_nil] at found
      simp only [splitPiece, front, notPlain, ↓reduceIte, found]
      exact cutAt_exact _ rest
  | array notStruct notDict => exact splitPiece_array notStruct notDict rest
  | @structs s closed =>
      have found := findMatchBracket_closed (by decide) ['a'] closed rest
      obtain ⟨inner, rfl, _⟩ := closed
      have front : charAt ('a' :: '(' :: (inner ++ [')']) ++ rest) 0 = 'a' := rfl
      have second : charAt ('a' :: '(' :: (inner ++ [')']) ++ rest) 1 = '(' := rfl
      simp only [splitPiece, front, second, notPlain', ↓reduceIte]
      exact (congrArg (cutAt _) found).trans (cutAt_exact ('a' :: '(' :: (inner ++ [')'])) rest)
  | @dict s closed =>
      have found := findMatchBracket_closed (by decide) ['a'] closed rest
      obtain ⟨inner, rfl, _⟩ := closed
      have front : charAt ('a' :: '{' :: (inner ++ ['}']) ++ rest) 0 = 'a' := rfl
      have second : charAt ('a' :: '{' :: (inner ++ ['}']) ++ rest) 1 = '{' := rfl
      simp only [splitPiece, front, second, notPlain', ↓reduceIte]
      exact (congrArg (cutAt _) found).trans (cutAt_exact ('a' :: '{' :: (inner ++ ['}'])) rest)

/-- What the cut at a matching bracket leaves: nothing where the bracket is never closed. -/
theorem piece_of_cutAt {left right : Char} (different : right ≠ left) (front : Str)
    {s piece rest : Str}
    (cut : cutAt (front ++ left :: s) (findMatchBracket (front ++ left :: s) front.length left right) =
      .ok (piece, rest)) :
    piece = [] ∧ Unmatched left right s ∨
      ∃ closed, Closed left right closed ∧ piece = front ++ closed := by
  rw [findMatchBracket_eq, cutAt_eq] at cut
  by_cases missed : scanBracket left right 1 (front.length + 1) s = 0
  · rw [missed, if_neg (Nat.not_lt_zero _)] at cut
    refine .inl ⟨?_, unmatched_of_scanBracket different missed⟩
    exact (Prod.mk.inj (Except.ok.inj cut)).1.symm
  · obtain ⟨before, after, shape, balanced, place⟩ :=
      encloses_of_scanBracket different (rfl : scanBracket left right (0 + 1) _ s = _)
        (Nat.pos_of_ne_zero missed)
    have whole : front ++ left :: s = (front ++ left :: (before ++ [right])) ++ after := by
      rw [shape]
      simp
    have length : scanBracket left right 1 (front.length + 1) s =
        (front ++ left :: (before ++ [right])).length := by
      rw [Nat.zero_add] at place
      simp only [place, List.length_append, List.length_cons, List.length_nil]
      omega
    rw [length, whole, if_neg (by rw [List.length_append]; omega), List.take_left] at cut
    refine .inr ⟨left :: (before ++ [right]), ⟨before, rfl, balanced⟩, ?_⟩
    exact (Prod.mk.inj (Except.ok.inj cut)).1.symm

/-- The round on an array. -/
theorem piece_of_splitPiece_array {s piece rest : Str}
    (cut : splitPiece ('a' :: s) = .ok (piece, rest)) :
    piece = [] ∧ Unclosed ('a' :: s) ∨ Piece piece := by
  cases s with
  | nil => exact absurd cut (Cxx.throwExn_ne_ok _ _ _)
  | cons d s =>
      by_cases struct : d = '('
      · subst struct
        rcases piece_of_cutAt (by decide) ['a'] cut with
          ⟨empty, unmatched⟩ | ⟨closed, balanced, rfl⟩
        · exact .inl ⟨empty, .structs unmatched⟩
        · exact .inr (.structs balanced)
      · by_cases dict : d = '{'
        · subst dict
          rcases piece_of_cutAt (by decide) ['a'] cut with
            ⟨empty, unmatched⟩ | ⟨closed, balanced, rfl⟩
          · exact .inl ⟨empty, .dict unmatched⟩
          · exact .inr (.dict balanced)
        · rw [splitPiece_array struct dict] at cut
          obtain ⟨rfl, _⟩ := Prod.mk.inj (Except.ok.inj cut)
          exact .inr (.array struct dict)

/-- A round that does not throw cuts off a piece, or it met a bracket that is never closed. -/
theorem piece_of_splitPiece {sig piece rest : Str} (cut : splitPiece sig = .ok (piece, rest)) :
    piece = [] ∧ Unclosed sig ∨ Piece piece := by
  cases sig with
  | nil => exact absurd cut (Cxx.throwExn_ne_ok _ _ _)
  | cons c s =>
      by_cases struct : c = '('
      · subst struct
        rcases piece_of_cutAt (by decide) [] cut with ⟨empty, unmatched⟩ | ⟨closed, balanced, rfl⟩
        · exact .inl ⟨empty, .struct unmatched⟩
        · exact .inr (.struct balanced)
      · by_cases array : c = 'a'
        · subst array
          exact piece_of_splitPiece_array cut
        · have front : charAt (c :: s) 0 = c := rfl
          simp only [splitPiece, front, struct, array, ↓reduceIte] at cut
          split at cut
          · rename_i known
            rw [cutAt_eq, if_neg (by simp)] at cut
            obtain ⟨rfl, _⟩ := Prod.mk.inj (Except.ok.inj cut)
            exact .inr (.plain known)
          · split at cut
            · exact absurd cut (Cxx.throwExn_ne_ok _ _ _)
            · exact absurd cut (Cxx.throwExn_ne_ok _ _ _)

/-- A round that meets a bracket that is never closed removes nothing. -/
theorem splitPiece_unclosed {sig : Str} (unclosed : Unclosed sig) :
    splitPiece sig = .ok ([], sig) := by
  have nothing : ∀ s : Str, cutAt s 0 = .ok ([], s) := fun s => cutAt_exact [] s
  have notPlain : ('(' : Char) ∉ plainCodes := by decide
  have notPlain' : ('a' : Char) ∉ plainCodes := by decide
  cases unclosed with
  | @struct s unmatched =>
      have missed : findMatchBracket ('(' :: s) 0 '(' ')' = 0 :=
        scanBracket_unmatched (by decide) unmatched 1
      have front : charAt ('(' :: s) 0 = '(' := rfl
      simp only [splitPiece, front, notPlain, ↓reduceIte, missed, nothing]
  | @structs s unmatched =>
      have missed : findMatchBracket ('a' :: '(' :: s) 1 '(' ')' = 0 :=
        scanBracket_unmatched (by decide) unmatched 2
      have front : charAt ('a' :: '(' :: s) 0 = 'a' := rfl
      have second : charAt ('a' :: '(' :: s) 1 = '(' := rfl
      simp only [splitPiece, front, second, notPlain', ↓reduceIte, missed]
      exact nothing _
  | @dict s unmatched =>
      have missed : findMatchBracket ('a' :: '{' :: s) 1 '{' '}' = 0 :=
        scanBracket_unmatched (by decide) unmatched 2
      have front : charAt ('a' :: '{' :: s) 0 = 'a' := rfl
      have second : charAt ('a' :: '{' :: s) 1 = '{' := rfl
      simp only [splitPiece, front, second, notPlain', ↓reduceIte, missed]
      exact nothing _

/-- The splitter returns the pieces a signature is made of, and nothing else. -/
theorem split_eq_ok_iff {sig : Str} {pieces : List Str} :
    split sig = .ok pieces ↔ pieces.flatten = sig ∧ ∀ piece ∈ pieces, Piece piece := by
  constructor
  · intro ok
    refine ⟨(split_pieces ok).1, ?_⟩
    induction pieces generalizing sig with
    | nil => simp
    | cons first others ih =>
        have nonempty := (split_pieces ok).2 first List.mem_cons_self
        have more : sig ≠ [] := by
          intro empty
          rw [empty, split_nil] at ok
          exact List.cons_ne_nil _ _ (Except.ok.inj ok).symm
        rw [split_eq more] at ok
        obtain ⟨⟨piece, rest⟩, cut, later⟩ := Cxx.bind_eq_ok.mp ok
        obtain ⟨others', restOk, same⟩ := Cxx.bind_eq_ok.mp later
        obtain ⟨rfl, rfl⟩ := List.cons.inj (Except.ok.inj same)
        have known : Piece piece := (piece_of_splitPiece cut).resolve_left fun stuck => nonempty stuck.1
        intro p inside
        rcases List.mem_cons.mp inside with here | there
        · rw [here]
          exact known
        · exact ih restOk p there
  · rintro ⟨rfl, known⟩
    induction pieces with
    | nil => rfl
    | cons piece pieces ih =>
        have first := known piece List.mem_cons_self
        have others := ih fun other inside => known other (List.mem_cons_of_mem _ inside)
        rw [split_eq (by simp [first.ne_nil]), List.flatten_cons, splitPiece_piece first, Cxx.bind_ok]
        simp only [others, Cxx.bind_ok]

/-- A piece is split into itself. -/
theorem split_of_piece {piece : Str} (known : Piece piece) : split piece = .ok [piece] := by
  rw [split_eq_ok_iff]
  simpa using known

theorem split_piece {sig piece : Str} {pieces : List Str} (ok : split sig = .ok pieces)
    (inside : piece ∈ pieces) : split piece = .ok [piece] :=
  split_of_piece ((split_eq_ok_iff.mp ok).2 piece inside)

/-! ### A signature that is one piece -/

theorem piece_of_single {sig : Str} (ok : split sig = .ok [sig]) : Piece sig :=
  (split_eq_ok_iff.mp ok).2 sig List.mem_cons_self

/-- A piece begins with one of the codes the splitter accepts. -/
theorem single_front {sig : Str} (ok : split sig = .ok [sig]) :
    charAt sig 0 ∈ plainCodes ∨ charAt sig 0 = '(' ∨ charAt sig 0 = 'a' := by
  cases piece_of_single ok with
  | plain known => exact .inl known
  | struct closed =>
      obtain ⟨inner, rfl, _⟩ := closed
      exact .inr (.inl rfl)
  | array => exact .inr (.inr rfl)
  | structs => exact .inr (.inr rfl)
  | dict => exact .inr (.inr rfl)

theorem single_plain {sig : Str} (ok : split sig = .ok [sig]) {c : Char} (front : charAt sig 0 = c)
    (plain : c ∈ plainCodes) : sig = [c] := by
  have notStruct : ('(' : Char) ∉ plainCodes := by decide
  have notArray : ('a' : Char) ∉ plainCodes := by decide
  rw [← front] at plain ⊢
  cases piece_of_single ok with
  | plain known => rfl
  | struct closed =>
      obtain ⟨inner, rfl, _⟩ := closed
      exact absurd plain notStruct
  | array => exact absurd plain notArray
  | structs => exact absurd plain notArray
  | dict => exact absurd plain notArray

theorem single_struct {sig : Str} (ok : split sig = .ok [sig]) (front : charAt sig 0 = '(') :
    ∃ inner, sig = '(' :: (inner ++ [')']) := by
  have notPlain : ('(' : Char) ∉ plainCodes := by decide
  cases piece_of_single ok with
  | plain known =>
      rw [← front] at notPlain
      exact absurd known notPlain
  | struct closed =>
      obtain ⟨inner, rfl, _⟩ := closed
      exact ⟨inner, rfl⟩
  | array => exact absurd front (by decide : ('a' : Char) ≠ '(')
  | structs => exact absurd front (by decide : ('a' : Char) ≠ '(')
  | dict => exact absurd front (by decide : ('a' : Char) ≠ '(')

/-! ### The splitter on the text of types -/

/-- The types the splitter takes as one piece. -/
def Splits : Ty → Prop
  | .basic b => b ≠ .objectPath ∧ b ≠ .signature
  | .variant => True
  | .array (.array _) => False
  | .array _ => True
  | .struct _ => True
  | .entry _ _ => False

instance (t : Ty) : Decidable (Splits t) := by
  unfold Splits
  split <;> infer_instance

/-- The two pairs of brackets a signature is scanned for. -/
def brackets : List (Char × Char) := [('(', ')'), ('{', '}')]

theorem encloses_texts {left right : Char} {ts : List Ty}
    (balanced : ∀ t ∈ ts, ∀ (depth : Nat) (rest : Str),
      Encloses left right depth (t.text ++ rest) ↔ Encloses left right depth rest)
    (depth : Nat) (rest : Str) :
    Encloses left right depth (Ty.texts ts ++ rest) ↔ Encloses left right depth rest := by
  induction ts with
  | nil => rfl
  | cons t ts ih =>
      rw [Ty.texts_cons, List.append_assoc, balanced t List.mem_cons_self]
      exact ih fun u inside => balanced u (List.mem_cons_of_mem _ inside)

/-- The brackets of either kind are balanced in the text of a type. -/
theorem encloses_text {left right : Char} (pair : (left, right) ∈ brackets) (t : Ty) (depth : Nat)
    (rest : Str) :
    Encloses left right depth (t.text ++ rest) ↔ Encloses left right depth rest := by
  have shape : left = '(' ∧ right = ')' ∨ left = '{' ∧ right = '}' := by
    simpa [brackets] using pair
  have skipped : ∀ {c : Char}, c ≠ '(' → c ≠ ')' → c ≠ '{' → c ≠ '}' → ∀ (depth : Nat) (rest : Str),
      Encloses left right depth (c :: rest) ↔ Encloses left right depth rest := by
    intro c struct struct' dict dict'
    rcases shape with ⟨rfl, rfl⟩ | ⟨rfl, rfl⟩
    · exact encloses_other struct struct'
    · exact encloses_other dict dict'
  induction t using Ty.induction generalizing depth rest with
  | basic b =>
      have plain := b.code_plain
      exact skipped plain.2.2.1 plain.2.2.2.1 plain.2.2.2.2.1 plain.2.2.2.2.2 depth rest
  | variant => exact skipped (by decide) (by decide) (by decide) (by decide) depth rest
  | array elem ih =>
      rw [Ty.text_array, List.cons_append, skipped (by decide) (by decide) (by decide) (by decide)]
      exact ih depth rest
  | struct fields ih =>
      have inner := encloses_texts ih
      rw [Ty.text_struct]
      simp only [List.cons_append, List.append_assoc, List.nil_append]
      rcases shape with ⟨rfl, rfl⟩ | ⟨rfl, rfl⟩
      · rw [encloses_open (by decide), inner, encloses_close (by decide)]
      · rw [encloses_other (by decide) (by decide), inner, encloses_other (by decide) (by decide)]
  | entry key value ihKey ihValue =>
      have inner : ∀ depth rest, Encloses left right depth (key.text ++ (value.text ++ rest)) ↔
          Encloses left right depth rest :=
        fun depth rest => (ihKey depth _).trans (ihValue depth rest)
      rw [Ty.text_entry]
      simp only [List.cons_append, List.append_assoc, List.nil_append]
      rcases shape with ⟨rfl, rfl⟩ | ⟨rfl, rfl⟩
      · rw [encloses_other (by decide) (by decide), inner, encloses_other (by decide) (by decide)]
      · rw [encloses_open (by decide), inner, encloses_close (by decide)]

theorem closed_struct (fields : List Ty) : Closed '(' ')' (Ty.struct fields).text := by
  refine ⟨Ty.texts fields, Ty.text_struct fields, ?_⟩
  have pair : ('(', ')') ∈ brackets := by decide
  have whole : Balanced '(' ')' (Ty.texts fields ++ []) ↔ Balanced '(' ')' [] :=
    encloses_texts (fun t _ => encloses_text pair t) 0 []
  rw [List.append_nil] at whole
  exact whole.mpr ((encloses_nil 0).mpr rfl)

theorem closed_entry (key value : Ty) : Closed '{' '}' (Ty.entry key value).text := by
  refine ⟨key.text ++ value.text, Ty.text_entry key value, ?_⟩
  have pair : ('{', '}') ∈ brackets := by decide
  have second := encloses_text pair value 0 []
  rw [List.append_nil] at second
  rw [Brackets.Balanced, encloses_text pair key, second, encloses_nil]

theorem code_mem_plainCodes {b : Basic} (plain : b ≠ .objectPath ∧ b ≠ .signature) :
    b.code ∈ plainCodes :=
  (by decide : ∀ b ∈ Basic.all, b ≠ .objectPath ∧ b ≠ .signature → b.code ∈ plainCodes) b
    b.mem_all plain

/-- A type the splitter takes is a piece. -/
theorem piece_text {t : Ty} (splits : Splits t) : Piece t.text := by
  cases t with
  | basic b => exact .plain (code_mem_plainCodes splits)
  | variant => exact .plain (by decide)
  | struct fields => exact .struct (closed_struct fields)
  | entry key value => exact absurd splits id
  | array elem =>
      cases elem with
      | basic b =>
          have plain := b.code_plain
          exact .array plain.2.2.1 plain.2.2.2.2.1
      | variant => exact .array (by decide) (by decide)
      | array elem => exact absurd splits id
      | struct fields => exact .structs (closed_struct fields)
      | entry key value => exact .dict (closed_entry key value)

/-- Such a type is cut off whole, whatever follows it. -/
theorem splitPiece_text {t : Ty} (splits : Splits t) (rest : Str) :
    splitPiece (t.text ++ rest) = .ok (t.text, rest) :=
  splitPiece_piece (piece_text splits) rest

/-- The pieces of a sequence of such types are the types. -/
theorem split_texts {ts : List Ty} (splits : ∀ t ∈ ts, Splits t) :
    split (Ty.texts ts) = .ok (ts.map Ty.text) := by
  induction ts with
  | nil => rfl
  | cons t ts ih =>
      have more : Ty.texts (t :: ts) ≠ [] := by simp [t.text_ne_nil]
      rw [split_eq more, Ty.texts_cons, splitPiece_text (splits t (by simp)), Cxx.bind_ok]
      simp only [ih (fun u member => splits u (by simp [member])), Cxx.bind_ok, List.map_cons]

theorem split_text {t : Ty} (splits : Splits t) : split t.text = .ok [t.text] := by
  have single : split (Ty.texts [t]) = .ok [t.text] := split_texts (by simpa using splits)
  rwa [Ty.texts_singleton] at single

/-! ### The parts of a signature -/

theorem cStr_texts (ts : List Ty) : Cxx.cStr (Ty.texts ts) = Ty.texts ts :=
  Cxx.cStr_eq_self (Ty.texts_zero_free ts)

theorem cStr_text (t : Ty) : Cxx.cStr t.text = t.text :=
  Cxx.cStr_eq_self t.text_zero_free

theorem substrFrom_array (elem : Ty) : substrFrom (Ty.array elem).text 1 = .ok elem.text := by
  rw [Cxx.substrFrom_eq_ok]
  simp

theorem substr_struct (fields : List Ty) :
    substr (Ty.struct fields).text 1 ((Ty.struct fields).text.length - 2) = .ok (Ty.texts fields) := by
  rw [Cxx.substr_eq_ok, Ty.text_struct]
  simp

theorem substr_entry (key value : Ty) :
    substr (Ty.entry key value).text 1 ((Ty.entry key value).text.length - 2) =
      .ok (key.text ++ value.text) := by
  have length : (Ty.entry key value).text.length - 2 = (key.text ++ value.text).length := by
    simp only [Ty.text_entry, List.length_cons, List.length_append, List.length_nil]
    omega
  rw [length, Cxx.substr_eq_ok, Ty.text_entry, List.drop_one, List.tail_cons, List.take_left]
  simp

theorem substr_key (key : Basic) (rest : Str) : substr (key.code :: rest) 0 1 = .ok [key.code] := by
  rw [Cxx.substr_eq_ok]
  simp

theorem substrFrom_key (key : Basic) (rest : Str) : substrFrom (key.code :: rest) 1 = .ok rest := by
  rw [Cxx.substrFrom_eq_ok]
  simp

theorem splitPiece_of_single {sig : Str} (ok : split sig = .ok [sig]) :
    splitPiece sig = .ok (sig, []) := by
  have more : sig ≠ [] := (split_pieces ok).2 sig (by simp)
  rw [split_eq more] at ok
  obtain ⟨⟨piece, rest⟩, cut, later⟩ := Cxx.bind_eq_ok.mp ok
  obtain ⟨others, _, same⟩ := Cxx.bind_eq_ok.mp later
  have whole := splitPiece_append cut
  have first : piece = sig := (List.cons.inj (Except.ok.inj same)).1
  rw [first] at whole cut
  rw [List.append_right_eq_self.mp whole] at cut
  exact cut

/-- The element of an array that is one piece, when its text begins with that of a type,
is that type. -/
theorem single_array {contents : Str} {elem : Ty} (ok : split ('a' :: contents) = .ok ['a' :: contents])
    (text : elem.text = Cxx.cStr contents) : contents = elem.text ∧ Splits (.array elem) := by
  have cut := splitPiece_of_single ok
  obtain ⟨rest, shape⟩ : ∃ rest, contents = elem.text ++ rest := by
    obtain ⟨rest, whole⟩ := List.takeWhile_prefix (· != '\x00') (l := contents)
    exact ⟨rest, by rw [text, Cxx.cStr, whole]⟩
  by_cases splits : Splits (.array elem)
  · have cut' := splitPiece_text splits rest
    rw [Ty.text_array, List.cons_append, ← shape, cut] at cut'
    have same := (Prod.mk.inj (Except.ok.inj cut')).1
    exact ⟨(List.cons.inj same).2, splits⟩
  · cases elem with
    | array inner =>
        rw [shape] at cut
        have cut' := splitPiece_array (c := 'a') (by decide) (by decide) (inner.text ++ rest)
        rw [Ty.text_array, List.cons_append, cut'] at cut
        have same := (Prod.mk.inj (Except.ok.inj cut)).1
        have empty : inner.text ++ rest = [] := by simpa using same.symm
        exact absurd (List.append_eq_nil_iff.mp empty).1 inner.text_ne_nil
    | _ => exact absurd trivial splits

end Dbus2Http.SignatureUtils

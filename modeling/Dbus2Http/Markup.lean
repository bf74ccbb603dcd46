import Dbus2Http.Substitution

set_option autoImplicit false

/-! A page as text with tags in it: every tag begins with `<`, and the texts between have none. -/

namespace Markup

/-- The texts behind an opening tag, each up to the next tag. -/
def behind (tag : List Char) : List Char → List (List Char)
  | [] => []
  | c :: rest =>
      if tag <+: c :: rest then
        ((c :: rest).drop tag.length).takeWhile (· ≠ '<') :: behind tag rest
      else behind tag rest

/-- A tag with the text behind it. -/
def Piece (piece : List Char) : Prop := ∃ rest, piece = '<' :: rest ∧ '<' ∉ rest

def textOf (tag piece : List Char) : Option (List Char) :=
  if tag <+: piece then some (piece.drop tag.length) else none

section Pieces

variable {tag : List Char}

theorem behind_skip (tagged : Piece tag) {text : List Char} (plain : '<' ∉ text) (rest : List Char) :
    behind tag (text ++ rest) = behind tag rest := by
  obtain ⟨name, rfl, -⟩ := tagged
  induction text with
  | nil => rfl
  | cons c text ih =>
      have other : ¬ '<' :: name <+: c :: (text ++ rest) := by
        intro starts
        exact plain ((List.cons_prefix_cons.mp starts).1 ▸ List.mem_cons_self)
      rw [List.cons_append, behind, if_neg other, ih fun inside => plain (List.mem_cons_of_mem _ inside)]

/-- What comes behind a piece does not complete a tag in it. -/
theorem prefix_piece (tagged : Piece tag) {piece rest : List Char}
    (next : rest = [] ∨ rest.head? = some '<') : tag <+: '<' :: (piece ++ rest) ↔ tag <+: '<' :: piece := by
  obtain ⟨name, rfl, plain⟩ := tagged
  rw [List.cons_prefix_cons, List.cons_prefix_cons]
  refine and_congr_right fun _ => ?_
  cases rest with
  | nil => rw [List.append_nil]
  | cons c rest =>
      have same : c = '<' := by simpa using next
      exact Substitution.prefix_append_cons_iff (same ▸ plain)

theorem takeWhile_piece {text rest : List Char} (plain : '<' ∉ text)
    (next : rest = [] ∨ rest.head? = some '<') : (text ++ rest).takeWhile (· ≠ '<') = text := by
  induction text with
  | nil =>
      cases rest with
      | nil => rfl
      | cons c rest =>
          have same : c = '<' := by simpa using next
          simp [same]
  | cons c text ih =>
      have other : c ≠ '<' := fun same => plain (same ▸ List.mem_cons_self)
      have later := ih fun inside => plain (List.mem_cons_of_mem _ inside)
      simp only [List.cons_append, List.takeWhile_cons, other, ne_eq, not_false_eq_true, decide_true,
        ↓reduceIte, later]

theorem behind_piece (tagged : Piece tag) {piece rest : List Char} (one : Piece piece)
    (next : rest = [] ∨ rest.head? = some '<') :
    behind tag (piece ++ rest) = (textOf tag piece).toList ++ behind tag rest := by
  obtain ⟨text, rfl, plain⟩ := one
  rw [List.cons_append, behind, behind_skip tagged plain, textOf]
  by_cases starts : tag <+: '<' :: text
  · obtain ⟨left, whole⟩ := starts
    rw [if_pos ((prefix_piece tagged next).mpr ⟨left, whole⟩), if_pos ⟨left, whole⟩]
    have cut : ('<' :: text).drop tag.length = left := by rw [← whole, List.drop_left]
    have cut' : ('<' :: (text ++ rest)).drop tag.length = left ++ rest := by
      rw [← List.cons_append, ← whole, List.append_assoc, List.drop_left]
    have inside : '<' ∉ left := by
      obtain ⟨name, rfl, -⟩ := tagged
      rw [List.cons_append, List.cons.injEq] at whole
      exact fun here => plain (whole.2 ▸ List.mem_append_right _ here)
    rw [cut, cut', takeWhile_piece inside next]
    rfl
  · rw [if_neg fun whole => starts ((prefix_piece tagged next).mp whole), if_neg starts]
    rfl

/-- In a page that is made of pieces, the texts behind a tag are those of the pieces with this tag. -/
theorem behind_flatten (tagged : Piece tag) {pieces : List (List Char)}
    (all : ∀ piece ∈ pieces, Piece piece) : behind tag pieces.flatten = pieces.filterMap (textOf tag) := by
  induction pieces with
  | nil => rfl
  | cons piece rest ih =>
      obtain ⟨one, others⟩ := List.forall_mem_cons.mp all
      have next : rest.flatten = [] ∨ rest.flatten.head? = some '<' := by
        cases rest with
        | nil => exact .inl rfl
        | cons second rest =>
            obtain ⟨text, rfl, -⟩ := others second List.mem_cons_self
            exact .inr rfl
      rw [List.flatten_cons, behind_piece tagged one next, ih others, List.filterMap_cons]
      cases textOf tag piece <;> rfl

end Pieces

/-! ### Pages over a vocabulary of tags -/

/-- Pieces given as a tag and the text behind it. -/
def page (pieces : List (List Char × List Char)) : List Char :=
  pieces.flatMap fun piece => piece.1 ++ piece.2

@[simp] theorem page_nil : page [] = [] := rfl

@[simp] theorem page_cons (piece : List Char × List Char) (pieces : List (List Char × List Char)) :
    page (piece :: pieces) = piece.1 ++ (piece.2 ++ page pieces) := by
  rw [page, List.flatMap_cons, List.append_assoc]
  rfl

@[simp] theorem page_append (pieces more : List (List Char × List Char)) :
    page (pieces ++ more) = page pieces ++ page more :=
  List.flatMap_append

theorem page_flatMap {ι : Type} (xs : List ι) (pieces : ι → List (List Char × List Char)) :
    page (xs.flatMap pieces) = xs.flatMap fun x => page (pieces x) :=
  List.flatMap_assoc

/-- Tags none of which begins another. -/
structure Vocabulary where
  tags : List (List Char)
  pieces : ∀ tag ∈ tags, Piece tag
  apart : ∀ tag ∈ tags, ∀ other ∈ tags, tag <+: other → tag = other

/-- The texts of the pieces with this tag. -/
def texts (tag : List Char) (pieces : List (List Char × List Char)) : List (List Char) :=
  pieces.filterMap fun piece => if piece.1 = tag then some piece.2 else none

section Texts

variable {tag : List Char}

@[simp] theorem texts_nil : texts tag [] = [] := rfl

theorem texts_cons_of_ne {other : List Char} (different : other ≠ tag) (text : List Char)
    (pieces : List (List Char × List Char)) :
    texts tag ((other, text) :: pieces) = texts tag pieces := by
  rw [texts, List.filterMap_cons, if_neg different]
  rfl

@[simp] theorem texts_append (pieces more : List (List Char × List Char)) :
    texts tag (pieces ++ more) = texts tag pieces ++ texts tag more :=
  List.filterMap_append

theorem texts_flatMap {ι : Type} (xs : List ι) (pieces : ι → List (List Char × List Char)) :
    texts tag (xs.flatMap pieces) = xs.flatMap fun x => texts tag (pieces x) := by
  induction xs with
  | nil => rfl
  | cons x xs ih => rw [List.flatMap_cons, texts_append, ih, List.flatMap_cons]

theorem texts_of_absent {pieces : List (List Char × List Char)} (absent : ∀ piece ∈ pieces, piece.1 ≠ tag) :
    texts tag pieces = [] := by
  rw [texts, List.filterMap_eq_nil_iff]
  exact fun piece inside => if_neg (absent piece inside)

end Texts

/-- The pieces are made of these tags. -/
def Vocabulary.Spells (vocabulary : Vocabulary) (pieces : List (List Char × List Char)) : Prop :=
  ∀ piece ∈ pieces, piece.1 ∈ vocabulary.tags ∧ '<' ∉ piece.2

section Spelled

variable {vocabulary : Vocabulary}

theorem textOf_append {tag other : List Char} (known : tag ∈ vocabulary.tags)
    (known' : other ∈ vocabulary.tags) (text : List Char) :
    textOf tag (other ++ text) = if other = tag then some text else none := by
  rw [textOf]
  by_cases same : other = tag
  · rw [if_pos same, same, if_pos (List.prefix_append _ _), List.drop_left]
  · rw [if_neg same, if_neg]
    intro starts
    rcases List.prefix_or_prefix_of_prefix starts (List.prefix_append other text) with short | long
    · exact same (vocabulary.apart tag known other known' short).symm
    · exact same (vocabulary.apart other known' tag known long)

/-- The texts behind a tag of the vocabulary are those that the pieces with this tag have. -/
theorem behind_page {tag : List Char} (known : tag ∈ vocabulary.tags)
    {pieces : List (List Char × List Char)} (spelled : vocabulary.Spells pieces) :
    behind tag (page pieces) = texts tag pieces := by
  have flat : page pieces = (pieces.map fun piece => piece.1 ++ piece.2).flatten := List.flatMap_def
  rw [flat, behind_flatten (vocabulary.pieces tag known), List.filterMap_map, texts]
  · refine List.filterMap_congr fun piece inside => ?_
    exact textOf_append known (spelled piece inside).1 piece.2
  · intro text inside
    obtain ⟨piece, member, rfl⟩ := List.mem_map.mp inside
    obtain ⟨name, tag_eq, plain⟩ := vocabulary.pieces piece.1 (spelled piece member).1
    refine ⟨name ++ piece.2, by rw [tag_eq, List.cons_append], fun here => ?_⟩
    rcases List.mem_append.mp here with inTag | inText
    · exact plain inTag
    · exact (spelled piece member).2 inText

theorem Vocabulary.Spells.append {pieces more : List (List Char × List Char)}
    (spelled : vocabulary.Spells pieces) (spelled' : vocabulary.Spells more) :
    vocabulary.Spells (pieces ++ more) := by
  intro piece inside
  rcases List.mem_append.mp inside with here | there
  · exact spelled piece here
  · exact spelled' piece there

theorem Vocabulary.Spells.flatMap {ι : Type} {xs : List ι}
    {pieces : ι → List (List Char × List Char)} (spelled : ∀ x ∈ xs, vocabulary.Spells (pieces x)) :
    vocabulary.Spells (xs.flatMap pieces) := by
  intro piece inside
  obtain ⟨x, member, here⟩ := List.mem_flatMap.mp inside
  exact spelled x member piece here

end Spelled

end Markup

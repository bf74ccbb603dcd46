import Dbus2Http.MessageDraft

set_option autoImplicit false

namespace Dbus

open Cxx (Str)

/-- A container being read: what is left in it, and whether it is an array. -/
structure ReadFrame where
  inArray : Bool
  rest : List Value

/-- A message being read, as the tree of typed values still ahead, and the flag
that the end of an array clears. -/
structure Cursor where
  top : ReadFrame
  below : List ReadFrame
  good : Bool

/-- The frame of a container whose contents are the expected ones. -/
def Value.frame? : ContainerKind → Str → Value → Option ReadFrame
  | .array, contents, .array elem items =>
      if elem.text = contents then some ⟨true, items⟩ else none
  | .struct, contents, .struct fields =>
      if Ty.texts (fields.map typeOf) = contents then some ⟨false, fields⟩ else none
  | .variant, contents, .variant content =>
      if content.typeOf.text = contents then some ⟨false, [content]⟩ else none
  | .dictEntry, contents, .entry key value =>
      if key.typeOf.text ++ value.typeOf.text = contents then some ⟨false, [key, value]⟩ else none
  | _, _, _ => none

namespace Cursor

def start (vs : List Value) : Cursor := ⟨⟨false, vs⟩, [], true⟩

/-- The cursor with other values left in the innermost container. -/
def withRest (c : Cursor) (vs : List Value) : Cursor := { c with top := { c.top with rest := vs } }

/-- At the end of an array nothing is read or entered, and the flag tells so; at the
end of any other container reading is an error. -/
def atEnd (c : Cursor) : Option Cursor :=
  if c.top.inArray then some { c with good := false } else none

def read (c : Cursor) (b : Basic) : Option (Option Value × Cursor) :=
  match c.top.rest with
  | [] => c.atEnd.map fun c => (none, c)
  | v :: rest => if v.typeOf = .basic b then some (some v, c.withRest rest) else none

def enterContainer (c : Cursor) (kind : ContainerKind) (contents : Str) : Option Cursor :=
  match c.top.rest with
  | [] => c.atEnd
  | v :: rest =>
      (v.frame? kind contents).map fun frame =>
        { c with top := frame, below := (c.withRest rest).top :: c.below }

/-- A container is left only when it has been read to its end. -/
def exitContainer (c : Cursor) : Option Cursor :=
  match c.top.rest, c.below with
  | [], parent :: below => some { c with top := parent, below := below }
  | _, _ => none

/-- The type code ahead and the signature of its contents. -/
def peekType (c : Cursor) : Char × Option Str :=
  match c.top.rest with
  | [] => ('\x00', none)
  | .variant content :: _ => ('v', some content.typeOf.text)
  | .array elem _ :: _ => ('a', some elem.text)
  | .struct fields :: _ => ('r', some (Ty.texts (fields.map Value.typeOf)))
  | .entry key value :: _ => ('e', some (key.typeOf.text ++ value.typeOf.text))
  | v :: _ => (v.typeOf.text.headD '\x00', none)

theorem withRest_of_ahead {c : Cursor} {rest : List Value} (ahead : c.top.rest = rest) :
    c.withRest rest = c := by
  rw [withRest, ← ahead]

@[simp] theorem withRest_withRest (c : Cursor) (vs ws : List Value) :
    (c.withRest vs).withRest ws = c.withRest ws := rfl

/-- The cursor inside the container that comes next. -/
def inside (c : Cursor) (frame : ReadFrame) (rest : List Value) : Cursor :=
  { c with top := frame, below := (c.withRest rest).top :: c.below }

theorem enterContainer_of_frame {c : Cursor} {kind : ContainerKind} {contents : Str} {v : Value}
    {rest : List Value} {frame : ReadFrame} (ahead : c.top.rest = v :: rest)
    (shape : v.frame? kind contents = some frame) :
    c.enterContainer kind contents = some (c.inside frame rest) := by
  simp only [enterContainer, ahead, shape, Option.map_some, inside]

/-- Reading a container to its end and leaving it moves past it. -/
theorem exitContainer_inside (c : Cursor) (frame : ReadFrame) (rest : List Value) :
    ((c.inside frame rest).withRest []).exitContainer = some (c.withRest rest) := rfl

theorem atEnd_eq_some {c c' : Cursor} :
    c.atEnd = some c' ↔ c.top.inArray = true ∧ c' = { c with good := false } := by
  unfold atEnd
  by_cases inArray : c.top.inArray = true
  · simp only [inArray, ↓reduceIte, Option.some.injEq, true_and]
    exact eq_comm
  · simp [inArray]

/-- Reading takes the value ahead, or finds the end of an array. -/
theorem read_eq_some {c c' : Cursor} {b : Basic} {answer : Option Value} :
    c.read b = some (answer, c') ↔
      (∃ v rest, c.top.rest = v :: rest ∧ v.typeOf = .basic b ∧ answer = some v ∧
        c' = c.withRest rest) ∨
      (c.top.rest = [] ∧ c.top.inArray = true ∧ answer = none ∧ c' = { c with good := false }) := by
  unfold read
  constructor
  · intro done
    split at done
    · rename_i ahead
      obtain ⟨d, last, same⟩ := Option.map_eq_some_iff.mp done
      obtain ⟨inArray, rfl⟩ := atEnd_eq_some.mp last
      cases same
      exact .inr ⟨ahead, inArray, rfl, rfl⟩
    · rename_i v rest ahead
      split at done
      · rename_i type
        cases done
        exact .inl ⟨v, rest, ahead, type, rfl, rfl⟩
      · contradiction
  · rintro (⟨v, rest, ahead, type, rfl, rfl⟩ | ⟨ahead, inArray, rfl, rfl⟩)
    · simp only [ahead, type, ↓reduceIte]
    · simp only [ahead, atEnd, inArray, ↓reduceIte, Option.map_some]

/-- Entering goes into the container ahead, or finds the end of an array. -/
theorem enterContainer_eq_some {c c' : Cursor} {kind : ContainerKind} {contents : Str} :
    c.enterContainer kind contents = some c' ↔
      (∃ v rest frame, c.top.rest = v :: rest ∧ v.frame? kind contents = some frame ∧
        c' = c.inside frame rest) ∨
      (c.top.rest = [] ∧ c.top.inArray = true ∧ c' = { c with good := false }) := by
  unfold enterContainer
  constructor
  · intro done
    split at done
    · rename_i ahead
      obtain ⟨inArray, rfl⟩ := atEnd_eq_some.mp done
      exact .inr ⟨ahead, inArray, rfl⟩
    · rename_i v rest ahead
      obtain ⟨frame, shape, same⟩ := Option.map_eq_some_iff.mp done
      exact .inl ⟨v, rest, frame, ahead, shape, same.symm⟩
  · rintro (⟨v, rest, frame, ahead, shape, rfl⟩ | ⟨ahead, inArray, rfl⟩)
    · simp only [ahead, shape, Option.map_some, inside]
    · simp only [ahead, atEnd, inArray, ↓reduceIte]

theorem exitContainer_eq_some {c c' : Cursor} :
    c.exitContainer = some c' ↔ c.top.rest = [] ∧
      ∃ parent below, c.below = parent :: below ∧ c' = { c with top := parent, below := below } := by
  unfold exitContainer
  constructor
  · intro done
    split at done
    · rename_i parent below empty around
      cases done
      exact ⟨empty, parent, below, around, rfl⟩
    · contradiction
  · rintro ⟨empty, parent, below, around, rfl⟩
    simp only [empty, around]

theorem read_basic {c : Cursor} {b : Basic} {v : Value} {rest : List Value}
    (ahead : c.top.rest = v :: rest) (type : v.typeOf = .basic b) :
    c.read b = some (some v, c.withRest rest) := by
  simp only [read, ahead, type, ↓reduceIte]

end Cursor

/-! ### The message library -/

/-- The operations of a message being read; each raises an error where it returns
nothing. Reading at the end of an array leaves the variable it reads into alone. -/
class MessageReader (M : Type) where
  good : M → Bool
  clearFlags : M → M
  read : M → Basic → Option (Option Value × M)
  peekType : M → Char × Option Str
  enterContainer : ContainerKind → M → Str → Option M
  exitContainer : ContainerKind → M → Option M

/-- A message is an ideal typed value tree with a cursor: each operation acts on the
cursor as prescribed there, and raises an error exactly where the cursor does. -/
class LawfulReader (M : Type) extends MessageReader M where
  cursor : M → Cursor
  good_cursor : ∀ m : M, good m = (cursor m).good
  clear_cursor : ∀ m : M, cursor (clearFlags m) = { cursor m with good := true }
  read_cursor : ∀ (m : M) (b : Basic),
    (read m b).map (fun result => (result.1, cursor result.2)) = (cursor m).read b
  peek_cursor : ∀ m : M, peekType m = (cursor m).peekType
  enter_cursor : ∀ (kind : ContainerKind) (m : M) (contents : Str),
    (enterContainer kind m contents).map cursor = (cursor m).enterContainer kind contents
  exit_cursor : ∀ (kind : ContainerKind) (m : M),
    (exitContainer kind m).map cursor = (cursor m).exitContainer

instance : LawfulReader Cursor where
  good := Cursor.good
  clearFlags c := { c with good := true }
  read := Cursor.read
  peekType := Cursor.peekType
  enterContainer kind c contents := c.enterContainer kind contents
  exitContainer _ c := c.exitContainer
  cursor := id
  good_cursor _ := rfl
  clear_cursor _ := rfl
  read_cursor _ _ := by simp
  peek_cursor _ := rfl
  enter_cursor _ _ _ := by simp
  exit_cursor _ _ := by simp

/-! ### Simulation between two readers -/

/-- `n` follows `m`: whatever `m` can do, `n` does with the same answers. Only a
variant ahead is ever looked at, so only there must the peeked types agree. -/
structure Follows {M N : Type} [MessageReader M] [MessageReader N] (R : M → N → Prop) : Prop where
  good : ∀ {m n}, R m n → MessageReader.good m = MessageReader.good n
  clearFlags : ∀ {m n}, R m n → R (MessageReader.clearFlags m) (MessageReader.clearFlags n)
  peekType : ∀ {m n}, R m n → (MessageReader.peekType m).1 = 'v' →
    MessageReader.peekType m = MessageReader.peekType n
  read : ∀ {m n b answer m'}, R m n → MessageReader.read m b = some (answer, m') →
    ∃ n', MessageReader.read n b = some (answer, n') ∧ R m' n'
  enterContainer : ∀ {m n kind contents m'}, R m n →
    MessageReader.enterContainer kind m contents = some m' →
    ∃ n', MessageReader.enterContainer kind n contents = some n' ∧ R m' n'
  exitContainer : ∀ {m n kind m'}, R m n → MessageReader.exitContainer kind m = some m' →
    ∃ n', MessageReader.exitContainer kind n = some n' ∧ R m' n'

/-- A message follows itself. -/
theorem follows_self (M : Type) [MessageReader M] : Follows (@Eq M) where
  good := congrArg _
  clearFlags := congrArg _
  peekType := by
    intro m n same _
    rw [same]
  read := by
    intro m n b answer m' same done
    exact ⟨m', same ▸ done, rfl⟩
  enterContainer := by
    intro m n kind contents m' same done
    exact ⟨m', same ▸ done, rfl⟩
  exitContainer := by
    intro m n kind m' same done
    exact ⟨m', same ▸ done, rfl⟩

/-- A message follows its cursor. -/
theorem follows_of_cursor (M : Type) [LawfulReader M] :
    Follows (fun (c : Cursor) (m : M) => LawfulReader.cursor m = c) where
  good := by
    rintro c m rfl
    exact (LawfulReader.good_cursor m).symm
  clearFlags := by
    rintro c m rfl
    exact LawfulReader.clear_cursor m
  peekType := by
    rintro c m rfl _
    exact (LawfulReader.peek_cursor m).symm
  read := by
    rintro c m b answer c' rfl done
    change (LawfulReader.cursor m).read b = _ at done
    rw [← LawfulReader.read_cursor, Option.map_eq_some_iff] at done
    obtain ⟨⟨answer', m'⟩, read, same⟩ := done
    cases same
    exact ⟨m', read, rfl⟩
  enterContainer := by
    rintro c m kind contents c' rfl done
    change (LawfulReader.cursor m).enterContainer kind contents = _ at done
    rw [← LawfulReader.enter_cursor, Option.map_eq_some_iff] at done
    obtain ⟨m', entered, same⟩ := done
    exact ⟨m', entered, same⟩
  exitContainer := by
    rintro c m kind c' rfl done
    change (LawfulReader.cursor m).exitContainer = _ at done
    rw [← LawfulReader.exit_cursor kind, Option.map_eq_some_iff] at done
    obtain ⟨m', left, same⟩ := done
    exact ⟨m', left, same⟩

/-- The cursor follows its message. -/
theorem cursor_follows (M : Type) [LawfulReader M] :
    Follows (fun (m : M) (c : Cursor) => LawfulReader.cursor m = c) where
  good := by
    rintro m c rfl
    exact LawfulReader.good_cursor m
  clearFlags := by
    rintro m c rfl
    exact LawfulReader.clear_cursor m
  peekType := by
    rintro m c rfl _
    exact LawfulReader.peek_cursor m
  read := by
    rintro m c b answer m' rfl done
    refine ⟨LawfulReader.cursor m', ?_, rfl⟩
    change (LawfulReader.cursor m).read b = _
    rw [← LawfulReader.read_cursor, done]
    rfl
  enterContainer := by
    rintro m c kind contents m' rfl done
    refine ⟨LawfulReader.cursor m', ?_, rfl⟩
    change (LawfulReader.cursor m).enterContainer kind contents = _
    rw [← LawfulReader.enter_cursor, done]
    rfl
  exitContainer := by
    rintro m c kind m' rfl done
    refine ⟨LawfulReader.cursor m', ?_, rfl⟩
    change (LawfulReader.cursor m).exitContainer = _
    rw [← LawfulReader.exit_cursor kind, done]
    rfl

/-- A cursor over a message of its own, and the same cursor put somewhere else: the
outermost container, no array, has become the frame `base`, whose values follow. -/
inductive Embeds (base : ReadFrame) (outer : List ReadFrame) : Cursor → Cursor → Prop
  | outermost (own : List Value) (good : Bool) :
      Embeds base outer ⟨⟨false, own⟩, [], good⟩ ⟨⟨base.inArray, own ++ base.rest⟩, outer, good⟩
  | inside (frame : ReadFrame) (frames : List ReadFrame) (own : List Value) (good : Bool) :
      Embeds base outer ⟨frame, frames ++ [⟨false, own⟩], good⟩
        ⟨frame, frames ++ ⟨base.inArray, own ++ base.rest⟩ :: outer, good⟩

theorem Embeds.good_eq {base : ReadFrame} {outer : List ReadFrame} {alone other : Cursor}
    (embeds : Embeds base outer alone other) : alone.good = other.good := by
  cases embeds <;> rfl

theorem Embeds.of_start {c : Cursor} (good : c.good = true) (own more : List Value) :
    Embeds ⟨c.top.inArray, more⟩ c.below (Cursor.start own) (c.withRest (own ++ more)) := by
  have placed : Embeds ⟨c.top.inArray, more⟩ c.below _ _ := .outermost own c.good
  rw [good] at placed
  simpa only [Cursor.start, Cursor.withRest, good] using placed

/-- What can be read on its own is read the same way wherever it stands. -/
theorem embeds_follows (base : ReadFrame) (outer : List ReadFrame) :
    Follows (Embeds base outer) where
  good := Embeds.good_eq
  clearFlags := by
    intro c d embeds
    cases embeds with
    | outermost own good => exact .outermost own true
    | inside frame frames own good => exact .inside frame frames own true
  peekType := by
    intro c d embeds variant
    cases embeds with
    | outermost own good =>
        cases own with
        | nil => simp [MessageReader.peekType, Cursor.peekType] at variant
        | cons v rest => cases v <;> rfl
    | inside frame frames own good => rfl
  read := by
    intro c d b answer c' embeds done
    change ∃ d', d.read b = some (answer, d') ∧ Embeds base outer c' d'
    rcases Cursor.read_eq_some.mp done with
      ⟨v, rest, ahead, type, rfl, rfl⟩ | ⟨ahead, inArray, rfl, rfl⟩
    · cases embeds with
      | outermost own good =>
          obtain rfl : own = v :: rest := ahead
          have ahead : v :: rest ++ base.rest = v :: (rest ++ base.rest) := rfl
          exact ⟨_, Cursor.read_basic ahead type, .outermost rest good⟩
      | inside frame frames own good =>
          exact ⟨_, Cursor.read_basic ahead type, .inside ⟨frame.inArray, rest⟩ frames own good⟩
    · cases embeds with
      | outermost own good => contradiction
      | inside frame frames own good =>
          exact ⟨_, Cursor.read_eq_some.mpr (.inr ⟨ahead, inArray, rfl, rfl⟩),
            .inside frame frames own false⟩
  enterContainer := by
    intro c d kind contents c' embeds done
    change ∃ d', d.enterContainer kind contents = some d' ∧ Embeds base outer c' d'
    rcases Cursor.enterContainer_eq_some.mp done with
      ⟨v, rest, frame, ahead, shape, rfl⟩ | ⟨ahead, inArray, rfl⟩
    · cases embeds with
      | outermost own good =>
          obtain rfl : own = v :: rest := ahead
          have ahead : v :: rest ++ base.rest = v :: (rest ++ base.rest) := rfl
          exact ⟨_, Cursor.enterContainer_of_frame ahead shape, .inside frame [] rest good⟩
      | inside around frames own good =>
          exact ⟨_, Cursor.enterContainer_of_frame ahead shape,
            .inside frame (⟨around.inArray, rest⟩ :: frames) own good⟩
    · cases embeds with
      | outermost own good => contradiction
      | inside frame frames own good =>
          exact ⟨_, Cursor.enterContainer_eq_some.mpr (.inr ⟨ahead, inArray, rfl⟩),
            .inside frame frames own false⟩
  exitContainer := by
    intro c d kind c' embeds done
    change ∃ d', d.exitContainer = some d' ∧ Embeds base outer c' d'
    obtain ⟨empty, parent, below, around, rfl⟩ := Cursor.exitContainer_eq_some.mp done
    cases embeds with
    | outermost own good => contradiction
    | inside frame frames own good =>
        cases frames with
        | nil =>
            cases around
            exact ⟨_, Cursor.exitContainer_eq_some.mpr ⟨empty, _, _, rfl, rfl⟩, .outermost own good⟩
        | cons next frames =>
            cases around
            exact ⟨_, Cursor.exitContainer_eq_some.mpr ⟨empty, _, _, rfl, rfl⟩,
              .inside parent frames own good⟩

end Dbus

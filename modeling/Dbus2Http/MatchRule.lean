import Dbus2Http.CxxRuntime

set_option autoImplicit false

/-! Match rules of the message bus: keys and values, with a comma after each value. Between
apostrophes every character stands for itself, outside them a backslash may escape an apostrophe. -/

namespace Dbus.MatchRule

/-- Where the reader stands. -/
inductive Phase
  | key | value | quoted | escaped
deriving DecidableEq

structure Reader where
  done : List (List Char × List Char) := []
  key : List Char := []
  value : List Char := []
  phase : Phase := .key

def white : List Char := [' ', '\t', '\n', '\r']

namespace Reader

def readKey (reader : Reader) (c : Char) : Reader :=
  if c ∈ white ∧ reader.key = [] then reader
  else if c = '=' then { reader with phase := .value }
  else { reader with key := reader.key ++ [c] }

def readValue (reader : Reader) (c : Char) : Reader :=
  if c = ',' then { done := reader.done ++ [(reader.key, reader.value)] }
  else if c = '\x27' then { reader with phase := .quoted }
  else if c = '\\' then { reader with phase := .escaped }
  else { reader with value := reader.value ++ [c] }

def step (reader : Reader) (c : Char) : Reader :=
  match reader.phase with
  | .key => reader.readKey c
  | .value => reader.readValue c
  | .quoted =>
      if c = '\x27' then { reader with phase := .value }
      else { reader with value := reader.value ++ [c] }
  | .escaped =>
      if c = '\x27' then { reader with value := reader.value ++ [c], phase := .value }
      else { reader with value := reader.value ++ ['\\'], phase := .value }.readValue c

/-- At the end of the text. A key without a value and an open quotation are errors. -/
def finish (reader : Reader) : Option (List (List Char × List Char)) :=
  match reader.phase with
  | .key => if reader.key = [] then some reader.done else none
  | .value => some (reader.done ++ [(reader.key, reader.value)])
  | .quoted => none
  | .escaped => some (reader.done ++ [(reader.key, reader.value ++ ['\\'])])

end Reader

def read (text : List Char) : Option (List (List Char × List Char)) :=
  (text.foldl Reader.step {}).finish

/-! ### Quoted values -/

/-- A key that is read as it stands. -/
def GoodKey (key : List Char) : Prop := '=' ∉ key ∧ ∀ c, key.head? = some c → c ∉ white

instance (key : List Char) : Decidable (GoodKey key) :=
  inferInstanceAs (Decidable (_ ∧ ∀ c, key.head? = some c → _))

def part (pair : List Char × List Char) : List Char :=
  pair.1 ++ ("='".toList ++ (pair.2 ++ "'".toList))

def render (pairs : List (List Char × List Char)) : List Char :=
  ", ".toList.intercalate (pairs.map part)

theorem foldl_key {key : List Char} (good : GoodKey key) (done : List (List Char × List Char)) :
    key.foldl Reader.step { done := done } = { done := done, key := key } := by
  have later (front rest : List Char) (before : front ≠ []) (plain : '=' ∉ rest) :
      rest.foldl Reader.step { done := done, key := front } = { done := done, key := front ++ rest } := by
    induction rest generalizing front with
    | nil => rw [List.append_nil]; rfl
    | cons c rest ih =>
        have other : c ≠ '=' := fun same => plain (same ▸ List.mem_cons_self)
        have round : Reader.step { done := done, key := front } c =
            { done := done, key := front ++ [c] } := by
          simp [Reader.step, Reader.readKey, before, other]
        rw [List.foldl_cons, round, ih _ (by simp) fun inside => plain (List.mem_cons_of_mem _ inside),
          List.append_assoc]
        rfl
  cases key with
  | nil => rfl
  | cons c rest =>
      have other : c ≠ '=' := fun same => good.1 (same ▸ List.mem_cons_self)
      have round : Reader.step { done := done } c = { done := done, key := [c] } := by
        simp [Reader.step, Reader.readKey, good.2 c rfl, other]
      rw [List.foldl_cons, round,
        later [c] rest (by simp) fun inside => good.1 (List.mem_cons_of_mem _ inside)]
      rfl

theorem foldl_quoted {value : List Char} (plain : '\x27' ∉ value) (reader : Reader)
    (quoted : reader.phase = .quoted) :
    value.foldl Reader.step reader = { reader with value := reader.value ++ value } := by
  induction value generalizing reader with
  | nil => rw [List.append_nil]; rfl
  | cons c rest ih =>
      have other : c ≠ '\x27' := fun same => plain (same ▸ List.mem_cons_self)
      have round : reader.step c = { reader with value := reader.value ++ [c] } := by
        simp [Reader.step, quoted, other]
      rw [List.foldl_cons, round, ih (fun inside => plain (List.mem_cons_of_mem _ inside))
        { reader with value := reader.value ++ [c] } quoted]
      simp

/-- One part is read up to its closing apostrophe. -/
theorem foldl_part {pair : List Char × List Char} (good : GoodKey pair.1) (plain : '\x27' ∉ pair.2)
    (done : List (List Char × List Char)) :
    (part pair).foldl Reader.step { done := done } =
      { done := done, key := pair.1, value := pair.2, phase := .value } := by
  rw [part, List.foldl_append, foldl_key good, List.foldl_append, List.foldl_append]
  have opened : "='".toList.foldl Reader.step { done := done, key := pair.1 } =
      { done := done, key := pair.1, phase := .quoted } := by
    simp [Reader.step, Reader.readKey, Reader.readValue, white]
  rw [opened, foldl_quoted plain _ rfl]
  simp [Reader.step]

theorem render_cons_cons (first second : List Char × List Char)
    (rest : List (List Char × List Char)) :
    render (first :: second :: rest) = part first ++ (", ".toList ++ render (second :: rest)) := by
  rw [render, List.map_cons, List.map_cons, List.intercalate_cons_cons, List.append_assoc]
  rfl

theorem key_prefix_render (pair : List Char × List Char) (rest : List (List Char × List Char)) :
    pair.1 <+: render (pair :: rest) := by
  cases rest with
  | nil =>
      rw [render, List.map_singleton, List.intercalate_singleton]
      exact List.prefix_append _ _
  | cons second rest =>
      rw [render_cons_cons, part, List.append_assoc]
      exact List.prefix_append _ _

/-- What is quoted is read back. -/
theorem read_render {pairs : List (List Char × List Char)} (good : ∀ pair ∈ pairs, GoodKey pair.1)
    (plain : ∀ pair ∈ pairs, '\x27' ∉ pair.2) : read (render pairs) = some pairs := by
  have from_done (first : List Char × List Char) (rest done : List (List Char × List Char))
      (good : ∀ pair ∈ first :: rest, GoodKey pair.1) (plain : ∀ pair ∈ first :: rest, '\x27' ∉ pair.2) :
      ((render (first :: rest)).foldl Reader.step { done := done }).finish =
        some (done ++ first :: rest) := by
    induction rest generalizing first done with
    | nil =>
        have alone : render [first] = part first := List.intercalate_singleton
        rw [alone, foldl_part (good first List.mem_cons_self) (plain first List.mem_cons_self)]
        rfl
    | cons second rest ih =>
        have separated : ", ".toList.foldl Reader.step
            { done := done, key := first.1, value := first.2, phase := .value } =
              { done := done ++ [first] } := by
          simp [Reader.step, Reader.readValue, Reader.readKey, white]
        rw [render_cons_cons, List.foldl_append,
          foldl_part (good first List.mem_cons_self) (plain first List.mem_cons_self),
          List.foldl_append, separated, ih second (done ++ [first])
            (fun pair inside => good pair (List.mem_cons_of_mem _ inside))
            (fun pair inside => plain pair (List.mem_cons_of_mem _ inside)), List.append_assoc]
        rfl
  cases pairs with
  | nil => rfl
  | cons first rest => exact from_done first rest [] good plain

/-- A change of the values, one character at a time, that leaves keys and punctuation alone. -/
theorem render_flatMap {change : Char → List Char} {pairs : List (List Char × List Char)}
    (keys : ∀ pair ∈ pairs, pair.1.flatMap change = pair.1)
    (punctuation : ∀ c ∈ ['=', '\x27', ',', ' '], change c = [c]) :
    (render pairs).flatMap change =
      render (pairs.map fun pair => (pair.1, pair.2.flatMap change)) := by
  have equals := punctuation '=' (by decide)
  have apostrophe := punctuation '\x27' (by decide)
  have comma := punctuation ',' (by decide)
  have space := punctuation ' ' (by decide)
  have changed {pair : List Char × List Char} (key : pair.1.flatMap change = pair.1) :
      (part pair).flatMap change = part (pair.1, pair.2.flatMap change) := by
    simp [part, List.flatMap_append, key, equals, apostrophe]
  induction pairs with
  | nil => rfl
  | cons first rest ih =>
      have here := changed (keys first List.mem_cons_self)
      cases rest with
      | nil =>
          rw [render, List.map_singleton, List.intercalate_singleton, here, render, List.map_singleton,
            List.map_singleton, List.intercalate_singleton]
      | cons second rest =>
          have later := ih fun pair inside => keys pair (List.mem_cons_of_mem _ inside)
          rw [render_cons_cons, List.flatMap_append, List.flatMap_append, here, later, List.map_cons,
            List.map_cons, List.map_cons, render_cons_cons]
          simp [comma, space]

/-! ### Texts without backslashes -/

/-- No value so far has an apostrophe, and none is about to get one. -/
structure Reader.Straight (reader : Reader) : Prop where
  done : ∀ pair ∈ reader.done, '\x27' ∉ pair.2
  value : '\x27' ∉ reader.value
  phase : reader.phase ≠ .escaped

theorem Reader.Straight.step {reader : Reader} (straight : reader.Straight) {c : Char}
    (other : c ≠ '\\') : (reader.step c).Straight := by
  have grown (different : c ≠ '\x27') : '\x27' ∉ reader.value ++ [c] := by
    intro inside
    rcases List.mem_append.mp inside with old | new
    · exact straight.value old
    · exact different (List.mem_singleton.mp new).symm
  unfold Reader.step
  cases phase : reader.phase with
  | key =>
      unfold Reader.readKey
      dsimp only
      split_ifs
      · exact straight
      · exact ⟨straight.done, straight.value, by simp⟩
      · exact ⟨straight.done, straight.value, straight.phase⟩
  | value =>
      unfold Reader.readValue
      dsimp only
      split_ifs with comma apostrophe
      · refine ⟨fun pair inside => ?_, by simp, by simp⟩
        rcases List.mem_append.mp inside with old | new
        · exact straight.done pair old
        · rw [List.mem_singleton.mp new]
          exact straight.value
      · exact ⟨straight.done, straight.value, by simp⟩
      · exact ⟨straight.done, grown apostrophe, straight.phase⟩
  | quoted =>
      dsimp only
      split_ifs with apostrophe
      · exact ⟨straight.done, straight.value, by simp⟩
      · exact ⟨straight.done, grown apostrophe, by simp⟩
  | escaped => exact absurd phase straight.phase

/-- Without a backslash no value has an apostrophe. -/
theorem read_no_apostrophe {text : List Char} (plain : '\\' ∉ text)
    {pairs : List (List Char × List Char)} (reads : read text = some pairs) :
    ∀ pair ∈ pairs, '\x27' ∉ pair.2 := by
  have straight : (text.foldl Reader.step {}).Straight := by
    refine List.foldlRecOn text Reader.step ⟨by simp, by simp, by simp⟩ ?_
    intro reader kept c inside
    exact kept.step fun same => plain (same ▸ inside)
  rw [read, Reader.finish] at reads
  cases phase : (text.foldl Reader.step {}).phase with
  | key =>
      simp only [phase] at reads
      split_ifs at reads
      rw [← Option.some.inj reads]
      exact straight.done
  | value =>
      simp only [phase] at reads
      rw [← Option.some.inj reads]
      intro pair inside
      rcases List.mem_append.mp inside with old | new
      · exact straight.done pair old
      · rw [List.mem_singleton.mp new]
        exact straight.value
  | quoted => simp [phase] at reads
  | escaped => exact absurd phase straight.phase

/-! ### Readers of rules -/

/-- A reader of rules, which may refuse some of them. Of what is quoted without apostrophes
and backslashes, under keys that differ, it takes all or nothing; and where it reads the values of
quoted parts under their own keys, each of them has ended at its apostrophe. -/
structure RuleReader where
  read : List Char → Option (List (List Char × List Char))
  Takes : List (List Char × List Char) → Prop
  quoted : ∀ {pairs : List (List Char × List Char)}, (∀ pair ∈ pairs, GoodKey pair.1) →
    (∀ pair ∈ pairs, '\x27' ∉ pair.2 ∧ '\\' ∉ pair.2) → (pairs.map Prod.fst).Nodup →
    ∀ other, read (render pairs) = some other ↔ other = pairs ∧ Takes pairs
  ended : ∀ {pairs other : List (List Char × List Char)}, '\\' ∉ render pairs →
    read (render pairs) = some other → other.map Prod.fst = pairs.map Prod.fst →
    ∀ pair ∈ other, '\x27' ∉ pair.2

/-- The reader that refuses nothing that it can read. -/
def RuleReader.permissive : RuleReader where
  read := MatchRule.read
  Takes _ := True
  quoted := by
    intro pairs good plain _ other
    rw [read_render good fun pair inside => (plain pair inside).1, Option.some.injEq]
    exact ⟨fun same => ⟨same.symm, trivial⟩, fun both => both.1.symm⟩
  ended plain reads _ := read_no_apostrophe plain reads

end Dbus.MatchRule

import Mathlib.Data.List.Infix

set_option autoImplicit false

/-! Occurrences of a pattern in a text over any alphabet, and their replacement. -/

namespace Substitution

variable {α : Type} [DecidableEq α]

/-- The first place where the pattern stands. -/
def firstOccurrence (pattern : List α) : List α → Option Nat
  | [] => if pattern = [] then some 0 else none
  | c :: rest =>
      if pattern.isPrefixOf (c :: rest) then some 0
      else (firstOccurrence pattern rest).map (· + 1)

/-- The text with its occurrences of the pattern replaced, from left to right; `skipped`
characters still belong to the last one. -/
def substituteFrom (pattern value : List α) : Nat → List α → List α
  | _, [] => []
  | skipped + 1, _ :: rest => substituteFrom pattern value skipped rest
  | 0, c :: rest =>
      if pattern.isPrefixOf (c :: rest) then
        value ++ substituteFrom pattern value (pattern.length - 1) rest
      else c :: substituteFrom pattern value 0 rest

def substitute (pattern value text : List α) : List α := substituteFrom pattern value 0 text

theorem substituteFrom_skip (pattern value front rest : List α) :
    substituteFrom pattern value front.length (front ++ rest) = substitute pattern value rest := by
  induction front with
  | nil => rfl
  | cons c front ih => exact ih

/-- An occurrence at the front is replaced as a whole. -/
theorem substitute_here {pattern : List α} (nonempty : pattern ≠ []) (value rest : List α) :
    substitute pattern value (pattern ++ rest) = value ++ substitute pattern value rest := by
  obtain ⟨c, front, rfl⟩ := List.exists_cons_of_ne_nil nonempty
  have here : (c :: front).isPrefixOf (c :: (front ++ rest)) = true := by
    rw [List.isPrefixOf_iff_prefix]
    exact ⟨rest, rfl⟩
  have skip := substituteFrom_skip (c :: front) value front rest
  rw [List.cons_append, substitute, substituteFrom, if_pos here, List.length_cons,
    Nat.add_sub_cancel, skip]

theorem substitute_cons {pattern : List α} {c : α} {rest : List α} (other : ¬ pattern <+: c :: rest)
    (value : List α) :
    substitute pattern value (c :: rest) = c :: substitute pattern value rest := by
  have missed : ¬ pattern.isPrefixOf (c :: rest) = true := by
    rwa [List.isPrefixOf_iff_prefix]
  rw [substitute, substituteFrom, if_neg missed]
  rfl

theorem firstOccurrence_here {pattern : List α} {c : α} {rest : List α}
    (here : pattern <+: c :: rest) : firstOccurrence pattern (c :: rest) = some 0 := by
  rw [firstOccurrence, if_pos (List.isPrefixOf_iff_prefix.mpr here)]

theorem firstOccurrence_cons {pattern : List α} {c : α} {rest : List α}
    (other : ¬ pattern <+: c :: rest) :
    firstOccurrence pattern (c :: rest) = (firstOccurrence pattern rest).map (· + 1) := by
  rw [firstOccurrence, if_neg (by rwa [List.isPrefixOf_iff_prefix])]

theorem firstOccurrence_cons_none {pattern : List α} {c : α} {rest : List α}
    (missed : firstOccurrence pattern (c :: rest) = none) :
    ¬ pattern <+: c :: rest ∧ firstOccurrence pattern rest = none := by
  have other : ¬ pattern <+: c :: rest := by
    intro here
    rw [firstOccurrence_here here] at missed
    contradiction
  rw [firstOccurrence_cons other, Option.map_eq_none_iff] at missed
  exact ⟨other, missed⟩

/-- Before the first occurrence nothing is replaced. -/
theorem firstOccurrence_some {pattern text : List α} {i : Nat} (nonempty : pattern ≠ [])
    (found : firstOccurrence pattern text = some i) :
    ∃ before rest, text = before ++ (pattern ++ rest) ∧ before.length = i ∧
      ∀ value, substitute pattern value text = before ++ (value ++ substitute pattern value rest) := by
  induction text generalizing i with
  | nil => simp [firstOccurrence, nonempty] at found
  | cons c text ih =>
      by_cases here : pattern <+: c :: text
      · rw [firstOccurrence_here here] at found
        obtain ⟨rest, same⟩ := here
        refine ⟨[], rest, same.symm, by simpa using found, ?_⟩
        intro value
        rw [← same, substitute_here nonempty, List.nil_append]
      · rw [firstOccurrence_cons here, Option.map_eq_some_iff] at found
        obtain ⟨j, later, rfl⟩ := found
        obtain ⟨before, rest, shape, place, replaced⟩ := ih later
        refine ⟨c :: before, rest, by rw [shape, List.cons_append], by rw [List.length_cons, place], ?_⟩
        intro value
        rw [substitute_cons here, replaced, List.cons_append]

/-- Where the pattern does not stand, nothing is replaced. -/
theorem firstOccurrence_none {pattern text : List α} (missed : firstOccurrence pattern text = none)
    (value : List α) : substitute pattern value text = text := by
  induction text with
  | nil => rfl
  | cons c text ih =>
      obtain ⟨other, missed⟩ := firstOccurrence_cons_none missed
      rw [substitute_cons other, ih missed]

/-- Where the pattern was not found it does not stand. -/
theorem not_infix_of_firstOccurrence_none {pattern text : List α}
    (missed : firstOccurrence pattern text = none) : ¬ pattern <:+: text := by
  induction text with
  | nil =>
      intro inside
      rw [List.infix_nil] at inside
      simp [firstOccurrence, inside] at missed
  | cons c text ih =>
      obtain ⟨other, missed⟩ := firstOccurrence_cons_none missed
      intro inside
      rcases List.infix_cons_iff.mp inside with front | later
      · exact other front
      · exact ih missed later

/-- A text either lacks the pattern and stays as it is, or is cut at its first occurrence. -/
theorem absent_or_cut {pattern : List α} (nonempty : pattern ≠ []) (text : List α) :
    (¬ pattern <:+: text ∧ ∀ value, substitute pattern value text = text) ∨
      ∃ before rest, text = before ++ (pattern ++ rest) ∧
        ∀ value, substitute pattern value text = before ++ (value ++ substitute pattern value rest) := by
  cases found : firstOccurrence pattern text with
  | none => exact .inl ⟨not_infix_of_firstOccurrence_none found, firstOccurrence_none found⟩
  | some i =>
      obtain ⟨before, rest, shape, _, replaced⟩ := firstOccurrence_some nonempty found
      exact .inr ⟨before, rest, shape, replaced⟩

theorem substitute_of_absent {pattern text : List α} (nonempty : pattern ≠ [])
    (absent : ¬ pattern <:+: text) (value : List α) : substitute pattern value text = text := by
  rcases absent_or_cut nonempty text with ⟨_, same⟩ | ⟨before, rest, shape, _⟩
  · exact same value
  · exact absurd ⟨before, rest, by rw [shape, List.append_assoc]⟩ absent

theorem substitute_all {pattern : List α} (nonempty : pattern ≠ []) (value : List α) :
    substitute pattern value pattern = value := by
  have whole := substitute_here nonempty value []
  rw [List.append_nil] at whole
  rw [whole]
  exact List.append_nil value

/-! ### Pieces -/

omit [DecidableEq α] in
theorem intercalate_cons_of_ne_nil (value before : List α) {pieces : List (List α)}
    (more : pieces ≠ []) :
    value.intercalate (before :: pieces) = before ++ (value ++ value.intercalate pieces) := by
  obtain ⟨next, others, rfl⟩ := List.exists_cons_of_ne_nil more
  simp [List.intercalate]

/-- The pieces between the occurrences of the pattern that are found from left to right, each
one behind the end of the one before it. -/
inductive Cut (pattern : List α) : List α → List (List α) → Prop
  | rest {text : List α} (absent : ¬ pattern <:+: text) : Cut pattern text [text]
  | found {before text : List α} {pieces : List (List α)}
      (leftmost : ∀ front, front ++ pattern <+: before ++ (pattern ++ text) →
        before.length ≤ front.length)
      (others : Cut pattern text pieces) :
      Cut pattern (before ++ (pattern ++ text)) (before :: pieces)

namespace Cut

variable {pattern text : List α} {pieces : List (List α)}

omit [DecidableEq α] in
theorem ne_nil (cut : Cut pattern text pieces) : pieces ≠ [] := by
  cases cut <;> exact List.cons_ne_nil _ _

omit [DecidableEq α] in
/-- Joined with the pattern the pieces are the text. -/
theorem intercalate_eq (cut : Cut pattern text pieces) : pattern.intercalate pieces = text := by
  induction cut with
  | rest absent => simp [List.intercalate]
  | found leftmost others ih => rw [intercalate_cons_of_ne_nil _ _ others.ne_nil, ih]

omit [DecidableEq α] in
/-- A text has no two leftmost occurrences, so it is cut in one way only. -/
theorem unique (cut : Cut pattern text pieces) {pieces' : List (List α)}
    (cut' : Cut pattern text pieces') : pieces = pieces' := by
  induction cut generalizing pieces' with
  | @rest text absent =>
      cases cut' with
      | rest _ => rfl
      | found _ _ => exact absurd ⟨_, _, List.append_assoc _ _ _⟩ absent
  | @found before text pieces leftmost others ih =>
      generalize whole : before ++ (pattern ++ text) = all at cut'
      cases cut' with
      | rest absent =>
          rw [← whole] at absent
          exact absurd ⟨_, _, List.append_assoc _ _ _⟩ absent
      | @found before' text' pieces' leftmost' others' =>
          have here : before ++ pattern <+: before' ++ (pattern ++ text') :=
            ⟨text, by rw [List.append_assoc, whole]⟩
          have here' : before' ++ pattern <+: before ++ (pattern ++ text) :=
            ⟨text', by rw [List.append_assoc, whole]⟩
          have same : before.length = before'.length :=
            Nat.le_antisymm (leftmost before' here') (leftmost' before here)
          obtain ⟨rfl, tails⟩ := List.append_inj whole same
          rw [ih (List.append_cancel_left tails ▸ others')]

end Cut

/-- The place that is found first is the leftmost. -/
theorem firstOccurrence_leftmost {pattern text front : List α} {i : Nat}
    (found : firstOccurrence pattern text = some i) (stands : front ++ pattern <+: text) :
    i ≤ front.length := by
  induction text generalizing i front with
  | nil =>
      rw [firstOccurrence] at found
      split at found
      · cases found
        exact Nat.zero_le _
      · contradiction
  | cons c text ih =>
      by_cases here : pattern <+: c :: text
      · rw [firstOccurrence_here here] at found
        cases found
        exact Nat.zero_le _
      · rw [firstOccurrence_cons here, Option.map_eq_some_iff] at found
        obtain ⟨j, later, rfl⟩ := found
        cases front with
        | nil => exact absurd stands here
        | cons d front =>
            rw [List.cons_append, List.cons_prefix_cons] at stands
            exact Nat.succ_le_succ (ih later stands.2)

/-- Every text can be cut, and its occurrences are replaced by joining the pieces anew. -/
theorem exists_cut {pattern : List α} (nonempty : pattern ≠ []) (text : List α) :
    ∃ pieces, Cut pattern text pieces ∧
      ∀ value, substitute pattern value text = value.intercalate pieces := by
  induction size : text.length using Nat.strong_induction_on generalizing text with
  | _ size ih =>
      cases found : firstOccurrence pattern text with
      | none =>
          refine ⟨[text], .rest (not_infix_of_firstOccurrence_none found), fun value => ?_⟩
          rw [firstOccurrence_none found]
          simp [List.intercalate]
      | some i =>
          obtain ⟨before, rest, rfl, rfl, replaced⟩ := firstOccurrence_some nonempty found
          have positive := List.length_pos_iff.mpr nonempty
          rw [List.length_append, List.length_append] at size
          obtain ⟨pieces, cut, joined⟩ := ih rest.length (by omega) rest rfl
          have leftmost := fun front => @firstOccurrence_leftmost _ _ pattern _ front _ found
          refine ⟨before :: pieces, .found leftmost cut, fun value => ?_⟩
          rw [replaced value, joined value, intercalate_cons_of_ne_nil _ _ cut.ne_nil]

/-! ### Lengths -/

/-- Every occurrence changes the length by the same difference. -/
theorem length_substitute {pattern : List α} (nonempty : pattern ≠ []) (text : List α) :
    ∃ n, ∀ value, (substitute pattern value text).length + n * pattern.length =
      text.length + n * value.length := by
  induction size : text.length using Nat.strong_induction_on generalizing text with
  | _ size ih =>
      rcases absent_or_cut nonempty text with ⟨_, same⟩ | ⟨before, rest, shape, replaced⟩
      · refine ⟨0, fun value => ?_⟩
        rw [same value]
        omega
      · have lengths : text.length = before.length + (pattern.length + rest.length) := by
          rw [shape, List.length_append, List.length_append]
        have positive := List.length_pos_iff.mpr nonempty
        obtain ⟨n, later⟩ := ih rest.length (by omega) rest rfl
        refine ⟨n + 1, fun value => ?_⟩
        have after := later value
        rw [replaced value, List.length_append, List.length_append, Nat.succ_mul, Nat.succ_mul]
        omega

theorem length_substitute_le {pattern value : List α} (nonempty : pattern ≠ [])
    (shorter : value.length ≤ pattern.length) (text : List α) :
    (substitute pattern value text).length ≤ text.length := by
  obtain ⟨n, lengths⟩ := length_substitute nonempty text
  have scaled : n * value.length ≤ n * pattern.length := Nat.mul_le_mul_left n shorter
  have balance := lengths value
  omega

theorem le_length_substitute {pattern value : List α} (nonempty : pattern ≠ [])
    (longer : pattern.length ≤ value.length) (text : List α) :
    text.length ≤ (substitute pattern value text).length := by
  obtain ⟨n, lengths⟩ := length_substitute nonempty text
  have scaled : n * pattern.length ≤ n * value.length := Nat.mul_le_mul_left n longer
  have balance := lengths value
  omega

/-- A pattern put in for itself changes nothing. -/
theorem substitute_self {pattern : List α} (nonempty : pattern ≠ []) (text : List α) :
    substitute pattern pattern text = text := by
  induction size : text.length using Nat.strong_induction_on generalizing text with
  | _ size ih =>
      rcases absent_or_cut nonempty text with ⟨_, same⟩ | ⟨before, rest, shape, replaced⟩
      · exact same pattern
      · have lengths : text.length = before.length + (pattern.length + rest.length) := by
          rw [shape, List.length_append, List.length_append]
        have positive := List.length_pos_iff.mpr nonempty
        rw [replaced pattern, ih rest.length (by omega) rest rfl, shape]

/-- A text is kept exactly when what stands in it is put in for itself. -/
theorem substitute_eq_self_iff {pattern : List α} (nonempty : pattern ≠ []) (value text : List α) :
    substitute pattern value text = text ↔ (pattern <:+: text → value = pattern) := by
  constructor
  · intro kept inside
    rcases absent_or_cut nonempty text with ⟨absent, _⟩ | ⟨before, rest, shape, replaced⟩
    · exact absurd inside absent
    · have tails : value ++ substitute pattern value rest = pattern ++ rest := by
        rw [replaced value, shape] at kept
        exact List.append_cancel_left kept
      have lengths : value.length + (substitute pattern value rest).length =
          pattern.length + rest.length := by
        rw [← List.length_append, tails, List.length_append]
      have same : value.length = pattern.length := by
        rcases Nat.le_total value.length pattern.length with shorter | longer
        · have := length_substitute_le nonempty shorter rest
          omega
        · have := le_length_substitute nonempty longer rest
          omega
      exact (List.append_inj tails same).1
  · intro harmless
    by_cases inside : pattern <:+: text
    · rw [harmless inside, substitute_self nonempty]
    · exact substitute_of_absent nonempty inside value

/-! ### Texts side by side -/

/-- Text without the first character of the pattern is passed over. -/
theorem substitute_append_of_head {pattern : List α} {first : α} (head : pattern.head? = some first)
    {front : List α} (fresh : first ∉ front) (value rest : List α) :
    substitute pattern value (front ++ rest) = front ++ substitute pattern value rest := by
  induction front with
  | nil => rfl
  | cons c front ih =>
      have other : ¬ pattern <+: c :: (front ++ rest) := by
        rintro ⟨suffix, shape⟩
        cases pattern with
        | nil => cases head
        | cons d pattern =>
            have same : d = c := (List.cons.inj shape).1
            have begins : d = first := Option.some.inj head
            apply fresh
            rw [← begins, same]
            exact List.mem_cons_self
      rw [List.cons_append, substitute_cons other, List.cons_append,
        ih fun inside => fresh (List.mem_cons_of_mem _ inside)]

omit [DecidableEq α] in
theorem prefix_append_cons_iff {pattern text rest : List α} {c : α} (foreign : c ∉ pattern) :
    pattern <+: text ++ c :: rest ↔ pattern <+: text := by
  constructor
  · intro front
    have cut : text ++ [c] <+: text ++ c :: rest := ⟨rest, by simp⟩
    rcases List.prefix_or_prefix_of_prefix front cut with short | long
    · rcases List.prefix_concat_iff.mp short with all | here
      · rw [all] at foreign
        simp at foreign
      · exact here
    · exact absurd (long.subset (by simp)) foreign
  · intro front
    exact front.trans (List.prefix_append _ _)

/-- No occurrence reaches over a character the pattern lacks. -/
theorem substituteFrom_append_cons {pattern : List α} {c : α} (nonempty : pattern ≠ [])
    (foreign : c ∉ pattern) (value : List α) {skipped : Nat} {text : List α}
    (inside : skipped ≤ text.length) (rest : List α) :
    substituteFrom pattern value skipped (text ++ c :: rest) =
      substituteFrom pattern value skipped text ++ c :: substitute pattern value rest := by
  induction text generalizing skipped with
  | nil =>
      have none : skipped = 0 := by simpa using inside
      have other : ¬ pattern <+: c :: rest := by
        have front := @prefix_append_cons_iff _ pattern [] rest c foreign
        rw [List.nil_append] at front
        rw [front, List.prefix_nil]
        exact nonempty
      rw [none]
      exact substitute_cons other value
  | cons d text ih =>
      cases skipped with
      | succ skipped => exact ih (Nat.le_of_succ_le_succ inside)
      | zero =>
          have front := @prefix_append_cons_iff _ pattern (d :: text) rest c foreign
          rw [List.cons_append] at front
          by_cases here : pattern <+: d :: text
          · have fits := here.length_le
            rw [List.length_cons] at fits
            have step := ih (show pattern.length - 1 ≤ text.length by omega)
            rw [List.cons_append, substituteFrom, substituteFrom,
              if_pos (List.isPrefixOf_iff_prefix.mpr (front.mpr here)),
              if_pos (List.isPrefixOf_iff_prefix.mpr here), step, List.append_assoc]
          · have step := ih (Nat.zero_le _)
            rw [List.cons_append, substituteFrom, substituteFrom,
              if_neg (by rwa [List.isPrefixOf_iff_prefix, front]),
              if_neg (by rwa [List.isPrefixOf_iff_prefix]), step, List.cons_append]

theorem substitute_append_cons {pattern : List α} {c : α} (nonempty : pattern ≠ [])
    (foreign : c ∉ pattern) (value text rest : List α) :
    substitute pattern value (text ++ c :: rest) =
      substitute pattern value text ++ c :: substitute pattern value rest :=
  substituteFrom_append_cons nonempty foreign value (Nat.zero_le _) rest

end Substitution

/-- A text with slots: what stands before the first one, and each slot with what follows it. -/
structure Template (ι α : Type) where
  head : List α
  fields : List (ι × List α)

namespace Template

open Substitution

variable {ι α : Type} [DecidableEq α]

def renderFields (shown : ι → List α) : List (ι × List α) → List α
  | [] => []
  | (slot, after) :: fields => shown slot ++ (after ++ renderFields shown fields)

/-- The text that shows something in each slot. -/
def render (template : Template ι α) (shown : ι → List α) : List α :=
  template.head ++ renderFields shown template.fields

/-- The text between the slots cannot begin a pattern, and cuts off what is in the slots. -/
structure Separates (template : Template ι α) (first : α) (pattern : List α) : Prop where
  begins : pattern.head? = some first
  head : first ∉ template.head
  fields : ∀ field ∈ template.fields, first ∉ field.2 ∧ ∃ c ∈ field.2.head?, c ∉ pattern

/-- A substitution in the text is one in every slot. -/
theorem Separates.substitute_render {template : Template ι α} {first : α} {pattern : List α}
    (separates : template.Separates first pattern) (value : List α) (shown : ι → List α) :
    substitute pattern value (template.render shown) =
      template.render fun slot => substitute pattern value (shown slot) := by
  have nonempty : pattern ≠ [] := by
    rintro rfl
    cases separates.begins
  have slots : ∀ fields : List (ι × List α), (∀ field ∈ fields, field ∈ template.fields) →
      substitute pattern value (renderFields shown fields) =
        renderFields (fun slot => substitute pattern value (shown slot)) fields := by
    intro fields among
    induction fields with
    | nil => rfl
    | cons field fields ih =>
        obtain ⟨slot, after⟩ := field
        obtain ⟨fresh, c, starts, foreign⟩ := separates.fields _ (among _ List.mem_cons_self)
        obtain ⟨tail, rfl⟩ : ∃ tail, after = c :: tail := List.head?_eq_some_iff.mp starts
        have apart : first ∉ tail := fun inside => fresh (List.mem_cons_of_mem _ inside)
        have others := ih fun field inside => among field (List.mem_cons_of_mem _ inside)
        rw [renderFields, renderFields, List.cons_append, substitute_append_cons nonempty foreign,
          substitute_append_of_head separates.begins apart, others, List.cons_append]
  rw [render, render, substitute_append_of_head separates.begins separates.head,
    slots template.fields fun _ => id]

omit [DecidableEq α] in
theorem length_renderFields_le {shown other : ι → List α} {fields : List (ι × List α)}
    (shorter : ∀ field ∈ fields, (shown field.1).length ≤ (other field.1).length) :
    (renderFields shown fields).length ≤ (renderFields other fields).length := by
  induction fields with
  | nil => exact Nat.le_refl _
  | cons field fields ih =>
      have here := shorter field List.mem_cons_self
      have later := ih fun field inside => shorter field (List.mem_cons_of_mem _ inside)
      simp only [renderFields, List.length_append]
      omega

omit [DecidableEq α] in
theorem renderFields_eq_iff_of_shorter {shown other : ι → List α} {fields : List (ι × List α)}
    (shorter : ∀ field ∈ fields, (shown field.1).length ≤ (other field.1).length) :
    renderFields shown fields = renderFields other fields ↔
      ∀ field ∈ fields, shown field.1 = other field.1 := by
  induction fields with
  | nil => simp [renderFields]
  | cons field fields ih =>
      have here := shorter field List.mem_cons_self
      have rest := fun field inside => shorter field (List.mem_cons_of_mem _ inside)
      have later := length_renderFields_le rest
      rw [List.forall_mem_cons, ← ih rest]
      constructor
      · intro same
        simp only [renderFields] at same
        have lengths := congrArg List.length same
        simp only [List.length_append] at lengths
        obtain ⟨slot, tails⟩ := List.append_inj same (by omega)
        exact ⟨slot, List.append_cancel_left tails⟩
      · rintro ⟨slot, tails⟩
        simp only [renderFields, slot, tails]

omit [DecidableEq α] in
/-- Texts whose slots are nowhere longer are equal only slot by slot. -/
theorem render_eq_iff_of_shorter {template : Template ι α} {shown other : ι → List α}
    (shorter : ∀ field ∈ template.fields, (shown field.1).length ≤ (other field.1).length) :
    template.render shown = template.render other ↔
      ∀ field ∈ template.fields, shown field.1 = other field.1 := by
  rw [render, render, List.append_cancel_left_eq, renderFields_eq_iff_of_shorter shorter]

end Template

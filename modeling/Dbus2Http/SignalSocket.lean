import Dbus2Http.CxxRuntime
import Dbus2Http.Substitution

set_option autoImplicit false

namespace Cxx

open Substitution

/-- `s.find_first_of(set)` -/
def findFirstOf (s set : Str) : Option Nat := s.findIdx? (· ∈ set)

/-- `s.find(text, pos)` -/
def findText (s text : Str) (pos : Nat) : Option Nat :=
  if pos ≤ s.length then (firstOccurrence text (s.drop pos)).map (pos + ·) else none

/-- `s.replace(pos, n, text)` -/
def replaceText (s : Str) (pos n : Nat) (text : Str) : Run Str :=
  if s.length < pos then throwExn .outOfRange "basic_string::replace".toList
  else .ok (s.take pos ++ text ++ s.drop (pos + n))

theorem findText_append (before rest text : Str) :
    findText (before ++ rest) text before.length =
      (firstOccurrence text rest).map (before.length + ·) := by
  have inside : before.length ≤ (before ++ rest).length := by
    rw [List.length_append]
    omega
  rw [findText, if_pos inside, List.drop_left]

theorem replaceText_append (before found rest text : Str) :
    replaceText (before ++ (found ++ rest)) before.length found.length text =
      .ok (before ++ text ++ rest) := by
  have inside : ¬ (before ++ (found ++ rest)).length < before.length := by
    rw [List.length_append]
    omega
  rw [replaceText, if_neg inside, List.take_left, ← List.drop_drop, List.drop_left, List.drop_left]

end Cxx

namespace Dbus2Http.SignalSocket

open Cxx (Str Run findFirstOf findText replaceText substrFrom)
open Substitution

/-! ### Replacement -/

/-- The loop of `replaceAll` at `pos`. -/
def replaceLoop (fromText toText : Str) : Nat → Str → Nat → Run Str
  | 0, _, _ => .error .outOfFuel
  | fuel + 1, result, pos =>
      match findText result fromText pos with
      | none => .ok result
      | some pos => do
          let result ← replaceText result pos fromText.length toText
          replaceLoop fromText toText fuel result (pos + toText.length)

/-- A round passes an occurrence of `from`, so more rounds than characters are needed only
where that is empty; then the loop never ends. -/
def replaceAll (input fromText toText : Str) : Run Str :=
  replaceLoop fromText toText (input.length + 1) input 0

theorem replaceLoop_eq {fromText : Str} (nonempty : fromText ≠ []) (toText : Str) {fuel : Nat}
    {rest : Str} (enough : rest.length < fuel) (before : Str) :
    replaceLoop fromText toText fuel (before ++ rest) before.length =
      .ok (before ++ substitute fromText toText rest) := by
  induction fuel generalizing before rest with
  | zero => omega
  | succ fuel ih =>
      rw [replaceLoop, Cxx.findText_append]
      cases found : firstOccurrence fromText rest with
      | none => simp only [Option.map_none, firstOccurrence_none found]
      | some i =>
          obtain ⟨passed, later, rfl, rfl, replaced⟩ := firstOccurrence_some nonempty found
          have positive := List.length_pos_iff.mpr nonempty
          have shorter : later.length < fuel := by
            simp only [List.length_append] at enough
            omega
          have regroup : before ++ (passed ++ (fromText ++ later)) =
              (before ++ passed) ++ (fromText ++ later) := by simp
          have place : before.length + passed.length = (before ++ passed).length := by
            rw [List.length_append]
          have next : (before ++ passed).length + toText.length =
              (before ++ passed ++ toText).length := by
            rw [@List.length_append _ (before ++ passed)]
          simp only [Option.map_some]
          rw [regroup, place, Cxx.replaceText_append, Cxx.bind_ok, next, ih shorter, replaced]
          simp only [List.append_assoc]

/-- Every occurrence is replaced, from left to right. -/
theorem replaceAll_eq {fromText : Str} (nonempty : fromText ≠ []) (input toText : Str) :
    replaceAll input fromText toText = .ok (substitute fromText toText input) :=
  replaceLoop_eq nonempty toText (Nat.lt_succ_self _) []

/-! ### The open handler -/

inductive CloseStatus
  | policyViolation
deriving DecidableEq, Repr

/-- What the handler did with a new connection: it was turned away, or its match rule was
passed on, and then it got a slot in `conn2slot_` or was closed after all. -/
inductive Opened (Slot : Type)
  | rejected (status : CloseStatus) (reason : Str)
  | subscribed (rule : Str) (slot : Slot)
  | failed (rule : Str) (status : CloseStatus) (reason : Str)
deriving DecidableEq

/-- The rule passed to `addMatch`. -/
def Opened.rule? {Slot : Type} : Opened Slot → Option Str
  | rejected _ _ => none
  | subscribed rule _ => some rule
  | failed rule _ _ => some rule

/-- The escapes that are undone, in the order of the calls. -/
def escapes : List (Str × Str) :=
  [("%20".toList, " ".toList), ("%27".toList, "'".toList), ("%2C".toList, ",".toList),
    ("%2F".toList, "/".toList), ("%3A".toList, ":".toList), ("%3D".toList, "=".toList)]

def decodeMatch (matched : Str) : Run Str :=
  escapes.foldlM (fun matched escape => replaceAll matched escape.1 escape.2) matched

section

variable {Slot : Type}

/-- The handler set by `set_open_handler`, for a connection it finds. A call of `addMatch`
returns a slot or raises an exception with a text. -/
def openHandler (addMatch : Str → Except Str Slot) (query : Str) : Run (Opened Slot) :=
  if findFirstOf query "match=".toList ≠ some 0 then
    .ok (.rejected .policyViolation "invalid query string".toList)
  else do
    let matched ← substrFrom query 6
    let matched ← decodeMatch matched
    match addMatch matched with
    | .ok slot => .ok (.subscribed matched slot)
    | .error what => .ok (.failed matched .policyViolation ("add match failed: ".toList ++ what))

/-- The decoded rule. -/
def decoded (matched : Str) : Str :=
  escapes.foldl (fun matched escape => substitute escape.1 escape.2 matched) matched

theorem foldlM_replaceAll {pairs : List (Str × Str)} (all : ∀ pair ∈ pairs, pair.1 ≠ [])
    (matched : Str) :
    pairs.foldlM (fun matched pair => replaceAll matched pair.1 pair.2) matched =
      .ok (pairs.foldl (fun matched pair => substitute pair.1 pair.2 matched) matched) := by
  induction pairs generalizing matched with
  | nil => rfl
  | cons pair rest ih =>
      rw [List.foldlM_cons, replaceAll_eq (all pair List.mem_cons_self), Cxx.bind_ok, List.foldl_cons]
      exact ih (fun other inside => all other (List.mem_cons_of_mem _ inside)) _

/-- The chain of replacements always ends. -/
theorem decodeMatch_eq (matched : Str) : decodeMatch matched = .ok (decoded matched) :=
  foldlM_replaceAll (by decide) matched

/-- The search for a set of characters is a test of the first one. -/
theorem findFirstOf_zero {s set : Str} :
    findFirstOf s set = some 0 ↔ ∃ c, s.head? = some c ∧ c ∈ set := by
  cases s with
  | nil => simp [findFirstOf]
  | cons c rest =>
      by_cases inside : c ∈ set
      · simp [findFirstOf, List.findIdx?_cons, inside]
      · simp [findFirstOf, List.findIdx?_cons, inside]

/-- A query that does not begin with one of the letters of `match=` is turned away. -/
theorem openHandler_rejected (addMatch : Str → Except Str Slot) {query : Str}
    (foreign : ¬ ∃ c, query.head? = some c ∧ c ∈ "match=".toList) :
    openHandler addMatch query = .ok (.rejected .policyViolation "invalid query string".toList) := by
  rw [← findFirstOf_zero] at foreign
  exact if_pos foreign

/-- Any other query that is long enough is taken for a rule behind six characters. -/
theorem openHandler_passed (addMatch : Str → Except Str Slot) {query : Str}
    (letter : ∃ c, query.head? = some c ∧ c ∈ "match=".toList) (long : 6 ≤ query.length) :
    ∃ opened, openHandler addMatch query = .ok opened ∧
      opened.rule? = some (decoded (query.drop 6)) := by
  rw [← findFirstOf_zero] at letter
  have cut : substrFrom query 6 = .ok (query.drop 6) := Cxx.substrFrom_eq_ok.mpr ⟨long, rfl⟩
  have passed : ¬ findFirstOf query "match=".toList ≠ some 0 := not_not.mpr letter
  rw [openHandler, if_neg passed, cut, Cxx.bind_ok, decodeMatch_eq, Cxx.bind_ok]
  cases addMatch (decoded (query.drop 6)) with
  | ok slot => exact ⟨_, rfl, rfl⟩
  | error what => exact ⟨_, rfl, rfl⟩

/-- A shorter one raises an exception that nothing catches. -/
theorem openHandler_throws (addMatch : Str → Except Str Slot) {query : Str}
    (letter : ∃ c, query.head? = some c ∧ c ∈ "match=".toList) (short : query.length < 6) :
    Cxx.Throws (openHandler addMatch query) := by
  rw [← findFirstOf_zero] at letter
  have passed : ¬ findFirstOf query "match=".toList ≠ some 0 := not_not.mpr letter
  rw [openHandler, if_neg passed, substrFrom, if_pos short]
  exact ⟨_, rfl⟩

/-- The handler passes on the rule of a match query, turns every other query away, and lets
no exception out. -/
structure OpensRight (addMatch : Str → Except Str Slot) (query : Str) : Prop where
  accepts : "match=".toList <+: query →
    ∃ opened, openHandler addMatch query = .ok opened ∧ opened.rule? = some (decoded (query.drop 6))
  rejects : ¬ "match=".toList <+: query →
    ∃ reason, openHandler addMatch query = .ok (.rejected .policyViolation reason)
  quiet : ¬ Cxx.Throws (openHandler addMatch query)

theorem letter_of_prefix {query : Str} (start : "match=".toList <+: query) :
    (∃ c, query.head? = some c ∧ c ∈ "match=".toList) ∧ 6 ≤ query.length := by
  obtain ⟨rest, rfl⟩ := start
  refine ⟨⟨'m', rfl, by decide⟩, ?_⟩
  rw [List.length_append]
  exact Nat.le_add_right 6 _

/-- The handler does so for every query but those that begin with one of the letters of
`match=` and not with `match=`. -/
theorem opensRight_iff (addMatch : Str → Except Str Slot) (query : Str) :
    OpensRight addMatch query ↔
      ((∃ c, query.head? = some c ∧ c ∈ "match=".toList) → "match=".toList <+: query) := by
  constructor
  · intro right letter
    by_contra foreign
    obtain ⟨reason, rejected⟩ := right.rejects foreign
    by_cases long : 6 ≤ query.length
    · obtain ⟨opened, passed, rule⟩ := openHandler_passed addMatch letter long
      rw [rejected] at passed
      obtain rfl := Except.ok.inj passed
      cases rule
    · exact right.quiet (openHandler_throws addMatch letter (Nat.not_le.mp long))
  · intro exact
    constructor
    · intro start
      obtain ⟨letter, long⟩ := letter_of_prefix start
      exact openHandler_passed addMatch letter long
    · intro foreign
      exact ⟨_, openHandler_rejected addMatch fun letter => foreign (exact letter)⟩
    · rintro throws
      by_cases letter : ∃ c, query.head? = some c ∧ c ∈ "match=".toList
      · obtain ⟨_, long⟩ := letter_of_prefix (exact letter)
        obtain ⟨opened, passed, _⟩ := openHandler_passed addMatch letter long
        exact throws.ne_ok opened passed
      · exact throws.ne_ok _ (openHandler_rejected addMatch letter)

/-- The query `mat` lets an exception out of the handler. -/
theorem open_mat : ¬ ∀ query, OpensRight (fun _ => (.ok () : Except Str Unit)) query := by
  intro always
  have letter : ∃ c, "mat".toList.head? = some c ∧ c ∈ "match=".toList := ⟨'m', by decide, by decide⟩
  exact (always "mat".toList).quiet (openHandler_throws _ letter (by decide))

end

end Dbus2Http.SignalSocket

import Dbus2Http.MatchQuery
import Dbus2Http.MatchRule

set_option autoImplicit false

namespace Dbus2Http.MatchRulePage

open Cxx (Str)
open Dbus.MatchRule (RuleReader render GoodKey render_flatMap key_prefix_render)
open SignalSocket

/-- The form elements, in the order of the page. -/
inductive Field
  | type | sender | interface | member | path | pathNamespace | destination | arg0namespace | eavesdrop
deriving DecidableEq, Repr

def Field.all : List Field :=
  [.type, .sender, .interface, .member, .path, .pathNamespace, .destination, .arg0namespace, .eavesdrop]

theorem Field.mem_all (field : Field) : field ∈ Field.all := by
  cases field <;> decide

/-- The key that stands for a field in the rule. -/
def Field.key : Field → Str
  | .type => "type".toList
  | .sender => "sender".toList
  | .interface => "interface".toList
  | .member => "member".toList
  | .path => "path".toList
  | .pathNamespace => "path_namespace".toList
  | .destination => "destination".toList
  | .arg0namespace => "arg0namespace".toList
  | .eavesdrop => "eavesdrop".toList

/-- What is typed into the form, or chosen there. -/
abbrev Form := Field → Str

def noParameters : Str := "No parameters selected yet...".toList

def chosenFields (form : Form) : List Field := Field.all.filter fun field => form field ≠ []

def ruleParts (form : Form) : List Str :=
  (chosenFields form).map fun field => field.key ++ ("='".toList ++ (form field ++ "'".toList))

def generateMatchRule (form : Form) : Str :=
  if (ruleParts form).length ≠ 0 then ", ".toList.intercalate (ruleParts form) else noParameters

/-- The query that `toggleWebSocket` connects with, unless it asks for parameters. -/
def toggleWebSocket (form : Form) : Option Str :=
  let matchRule := encodeURIComponent (String.ofList (generateMatchRule form))
  if matchRule = encodeURIComponent (String.ofList noParameters) then none
  else some ("match=".toList ++ matchRule)

/-- The chosen values, each character turned into what stands for it. -/
def pairs (form : Form) (change : Char → Str) : List (Str × Str) :=
  (chosenFields form).map fun field => (field.key, (form field).flatMap change)

/-- What the bus is asked for, in the bytes of its text. -/
def chosen (form : Form) : List (Str × Str) := pairs form charBytes

section Rules

variable {form : Form}

theorem mem_chosenFields {field : Field} : field ∈ chosenFields form ↔ form field ≠ [] := by
  rw [chosenFields, List.mem_filter, decide_eq_true_iff]
  exact and_iff_right field.mem_all

theorem chosenFields_eq_nil : chosenFields form = [] ↔ ∀ field, form field = [] := by
  constructor
  · intro none field
    by_contra typed
    have inside := mem_chosenFields.mpr typed
    rw [none] at inside
    cases inside
  · intro empty
    rw [List.eq_nil_iff_forall_not_mem]
    exact fun field inside => mem_chosenFields.mp inside (empty field)

theorem generateMatchRule_eq (some : chosenFields form ≠ []) :
    generateMatchRule form = render ((chosenFields form).map fun field => (field.key, form field)) := by
  have parts : (ruleParts form).length ≠ 0 := by
    rw [ruleParts, List.length_map]
    exact fun none => some (List.length_eq_zero_iff.mp none)
  rw [generateMatchRule, if_pos parts, render, List.map_map]
  rfl

theorem Field.good_key (field : Field) : GoodKey field.key := by
  cases field <;> exact ⟨by decide, by intro c head; cases head; decide⟩

theorem Field.key_received (field : Field) : field.key.flatMap received = field.key := by
  cases field <;> rfl

/-! ### What the handler makes of the rule -/

/-- The bytes of characters outside ASCII lie outside ASCII. -/
theorem high_bytes {c : Char} (high : 127 < c.val.toNat) :
    ∀ b ∈ String.utf8EncodeChar c, 128 ≤ b.toNat := by
  unfold String.utf8EncodeChar
  intro b inside
  simp only [Nat.not_le.mpr high, ↓reduceIte] at inside
  split_ifs at inside <;>
  · simp only [List.mem_cons, List.not_mem_nil, or_false] at inside
    rcases inside with rfl | rfl | rfl | rfl <;> rw [UInt8.toNat_ofNat'] <;> omega

theorem byteToken_text :
    ∀ n < 256, '\\' ∉ (undoAll (byteToken (UInt8.ofNat n))).text ∧
      (n ≠ 0x27 → '\x27' ∉ (undoAll (byteToken (UInt8.ofNat n))).text) := by
  decide +kernel

/-- Backslashes arrive escaped, and an apostrophe comes of nothing else. -/
theorem received_straight (c : Char) : '\\' ∉ received c ∧ (c ≠ '\x27' → '\x27' ∉ received c) := by
  by_cases plain : c ∈ unescaped
  · have texts_eq : received c = [c] := by
      rw [received_of_arrives (.inl plain)]
      exact forall_of_all (P := fun c => charBytes c = [c]) (by decide) c plain
    have straight : c ≠ '\\' := forall_of_all (P := (· ≠ '\\')) (by decide) c plain
    rw [texts_eq]
    exact ⟨fun inside => straight (List.mem_singleton.mp inside).symm,
      fun other inside => other (List.mem_singleton.mp inside).symm⟩
  · have bytes : ∀ b ∈ String.utf8EncodeChar c, b.toNat ≠ 0x27 := by
      intro b inside
      by_cases high : 127 < c.val.toNat
      · have large := high_bytes high b inside
        omega
      · have one : String.utf8EncodeChar c = [UInt8.ofNat c.val.toNat] := if_pos (Nat.not_lt.mp high)
        rw [one] at inside
        rw [List.mem_singleton.mp inside, UInt8.toNat_ofNat', Nat.mod_eq_of_lt (by omega)]
        intro code
        have apostrophe : c = Char.ofNat 0x27 := by rw [← code]; exact (Char.ofNat_toNat c).symm
        exact plain (apostrophe ▸ by decide)
    have apart {b : UInt8} (inside : b ∈ String.utf8EncodeChar c) :
        '\\' ∉ (undoAll (byteToken b)).text ∧ '\x27' ∉ (undoAll (byteToken b)).text := by
      have both := byteToken_text b.toNat b.toNat_lt
      rw [UInt8.ofNat_toNat] at both
      exact ⟨both.1, both.2 (bytes b inside)⟩
    rw [received, charTokens, dif_neg plain, List.map_map, PercentText.texts, List.flatMap_map]
    constructor
    · intro inside
      obtain ⟨b, member, here⟩ := List.mem_flatMap.mp inside
      exact (apart member).1 here
    · intro _ inside
      obtain ⟨b, member, here⟩ := List.mem_flatMap.mp inside
      exact (apart member).2 here

section Listening

variable {form : Form}

/-- The rule begins with a key, and no key begins as the request for parameters does. -/
theorem toggleWebSocket_of_chosen (typed : chosenFields form ≠ []) :
    toggleWebSocket form = some ("match=".toList ++
      encodeURIComponent (String.ofList (generateMatchRule form))) := by
  have differs : encodeURIComponent (String.ofList (generateMatchRule form)) ≠
      encodeURIComponent (String.ofList noParameters) := by
    obtain ⟨field, rest, fields⟩ := List.exists_cons_of_ne_nil typed
    obtain ⟨c, others, spelled, small⟩ : ∃ c others, field.key = c :: others ∧ c ∈ unescaped ∧ c ≠ 'N' := by
      cases field <;> exact ⟨_, _, rfl, by decide, by decide⟩
    obtain ⟨behind, starts⟩ := key_prefix_render (field.key, form field)
      (rest.map fun field => (field.key, form field))
    have whole : (chosenFields form).map (fun field => (field.key, form field)) =
        (field.key, form field) :: rest.map fun field => (field.key, form field) := by
      rw [fields, List.map_cons]
    rw [← whole, ← generateMatchRule_eq typed, spelled, List.cons_append] at starts
    intro same
    have first := congrArg List.head? same
    rw [encodeURIComponent, String.toList_ofList, ← starts, List.flatMap_cons, if_pos small.1] at first
    have letter : c = 'N' := Option.some.inj first
    exact small.2 letter
  rw [toggleWebSocket]
  exact if_neg differs

theorem toggleWebSocket_eq_none_iff : toggleWebSocket form = none ↔ ∀ field, form field = [] := by
  rw [← chosenFields_eq_nil]
  constructor
  · intro none
    by_contra typed
    rw [toggleWebSocket_of_chosen typed] at none
    cases none
  · intro empty
    have nothing : generateMatchRule form = noParameters := by
      rw [generateMatchRule, ruleParts, empty]
      rfl
    rw [toggleWebSocket, nothing]
    exact if_pos rfl

theorem render_pairs : render (pairs form received) =
    (render ((chosenFields form).map fun field => (field.key, form field))).flatMap received := by
  rw [render_flatMap, pairs, List.map_map]
  · rfl
  · intro pair inside
    obtain ⟨field, -, rfl⟩ := List.mem_map.mp inside
    exact field.key_received
  · exact forall_of_all (P := fun c => received c = [c]) (by decide)

/-- The rule that arrives is the one of the page with what becomes of each value. -/
theorem decoded_rule (typed : chosenFields form ≠ []) :
    decoded (encodeURIComponent (String.ofList (generateMatchRule form))) =
      render (pairs form received) := by
  rw [decoded_encodeURIComponent, String.toList_ofList, generateMatchRule_eq typed, render_pairs]

theorem pairs_eq_iff : pairs form received = chosen form ↔ ∀ field, ∀ c ∈ form field, Arrives c := by
  rw [chosen, pairs, pairs, List.map_inj_left]
  constructor
  · intro same field c inside
    have typed : form field ≠ [] := List.ne_nil_of_mem inside
    have values := congrArg Prod.snd (same field (mem_chosenFields.mpr typed))
    exact arrives_of_received ((flatMap_eq_iff charBytes_length_le _).mp values c inside)
  · intro arrive field _
    have values : (form field).flatMap received = (form field).flatMap charBytes :=
      (flatMap_eq_iff charBytes_length_le _).mpr fun c inside => received_of_arrives (arrive field c inside)
    rw [values]

theorem charBytes_apostrophe : charBytes '\x27' = ['\x27'] := rfl

theorem pairs_keys (change : Char → Str) :
    (pairs form change).map Prod.fst = (chosenFields form).map Field.key := by
  rw [pairs, List.map_map]
  rfl

theorem pairs_distinct (change : Char → Str) : ((pairs form change).map Prod.fst).Nodup := by
  have all : (Field.all.map Field.key).Nodup := by decide
  rw [pairs_keys]
  exact all.sublist (List.filter_sublist.map Field.key)

/-- Values without apostrophes arrive without any, and all arrive without backslashes. -/
theorem received_plain (none : ∀ field, ∀ c ∈ form field, c ≠ '\x27') :
    ∀ pair ∈ pairs form received, '\x27' ∉ pair.2 ∧ '\\' ∉ pair.2 := by
  intro pair inside
  obtain ⟨field, -, rfl⟩ := List.mem_map.mp inside
  constructor
  · intro here
    obtain ⟨c, member, apostrophe⟩ := List.mem_flatMap.mp here
    exact (received_straight c).2 (none field c member) apostrophe
  · intro here
    obtain ⟨c, -, backslash⟩ := List.mem_flatMap.mp here
    exact (received_straight c).1 backslash

theorem received_quoted (reader : RuleReader) (none : ∀ field, ∀ c ∈ form field, c ≠ '\x27')
    (other : List (Str × Str)) : reader.read (render (pairs form received)) = some other ↔
      other = pairs form received ∧ reader.Takes (pairs form received) := by
  refine reader.quoted (fun pair inside => ?_) (received_plain none) (pairs_distinct received) other
  obtain ⟨field, -, rfl⟩ := List.mem_map.mp inside
  exact field.good_key

theorem read_rule_iff (reader : RuleReader) :
    reader.read (render (pairs form received)) = some (chosen form) ↔
      reader.Takes (chosen form) ∧ ∀ field, ∀ c ∈ form field, Arrives c ∧ c ≠ '\x27' := by
  constructor
  · intro reads
    have straight : '\\' ∉ render (pairs form received) := by
      rw [render_pairs]
      intro inside
      obtain ⟨c, -, here⟩ := List.mem_flatMap.mp inside
      exact (received_straight c).1 here
    have none : ∀ field, ∀ c ∈ form field, c ≠ '\x27' := by
      intro field c inside same
      have typed := mem_chosenFields.mpr (List.ne_nil_of_mem inside)
      have keys : (chosen form).map Prod.fst = (pairs form received).map Prod.fst := by
        rw [chosen, pairs_keys, pairs_keys]
      refine reader.ended straight reads keys _ (List.mem_map.mpr ⟨field, typed, rfl⟩) ?_
      refine List.mem_flatMap.mpr ⟨c, inside, ?_⟩
      rw [same, charBytes_apostrophe]
      exact List.mem_singleton_self _
    obtain ⟨same, takes⟩ := (received_quoted reader none _).mp reads
    refine ⟨same ▸ takes, fun field c inside => ⟨?_, none field c inside⟩⟩
    exact pairs_eq_iff.mp same.symm field c inside
  · rintro ⟨takes, both⟩
    have equal := pairs_eq_iff.mpr fun field c inside => (both field c inside).1
    rw [← equal] at takes
    exact (received_quoted reader (fun field c inside => (both field c inside).2) _).mpr
      ⟨equal.symm, takes⟩

/-- A page that listens has a rule passed on, and it is read as it should be when it arrives. -/
theorem heard_of_listens (reader : RuleReader) {Slot : Type} (addMatch : Str → Except Str Slot)
    {query : Str} (listens : toggleWebSocket form = some query) : ∃ opened rule,
      openHandler addMatch query = .ok opened ∧ opened.rule? = some rule ∧
      (reader.read rule = some (chosen form) ↔
        reader.Takes (chosen form) ∧ ∀ field, ∀ c ∈ form field, Arrives c ∧ c ≠ '\x27') := by
  have typed : chosenFields form ≠ [] := by
    intro none
    rw [toggleWebSocket_eq_none_iff.mpr (chosenFields_eq_nil.mp none)] at listens
    cases listens
  rw [toggleWebSocket_of_chosen typed] at listens
  obtain ⟨letter, long⟩ := letter_of_prefix ⟨_, Option.some.inj listens⟩
  obtain ⟨opened, passed, rule⟩ := openHandler_passed addMatch letter long
  have rest : query.drop 6 = encodeURIComponent (String.ofList (generateMatchRule form)) := by
    rw [← Option.some.inj listens]
    rfl
  rw [rest, decoded_rule typed] at rule
  exact ⟨opened, _, passed, rule, read_rule_iff reader⟩

end Listening

/-- What is asked of the message bus when a form is filled in and the page listens: nothing when the
form is empty; otherwise the open handler passes a rule on, and the bus reads in it just the fields
that are filled in, each with its value, exactly when it takes such a rule and the values are made of
characters that arrive and none of them is an apostrophe. -/
theorem rule_heard_iff (reader : RuleReader) (form : Form) {Slot : Type}
    (addMatch : Str → Except Str Slot) :
    (toggleWebSocket form = none ↔ ∀ field, form field = []) ∧
      ∀ query, toggleWebSocket form = some query → ∃ opened rule,
        openHandler addMatch query = .ok opened ∧ opened.rule? = some rule ∧
        (reader.read rule = some (chosen form) ↔
          reader.Takes (chosen form) ∧ ∀ field, ∀ c ∈ form field, Arrives c ∧ c ≠ '\x27') :=
  ⟨toggleWebSocket_eq_none_iff, fun _ listens => heard_of_listens reader addMatch listens⟩

/-- The form for one signal of the bus itself. -/
def ownerForm : Form
  | .type => "signal".toList
  | .member => "NameOwnerChanged".toList
  | _ => []

theorem ownerForm_heard : ∃ query opened rule, toggleWebSocket ownerForm = some query ∧
    openHandler (fun _ => (.ok () : Except Str Unit)) query = .ok opened ∧ opened.rule? = some rule ∧
    Dbus.MatchRule.read rule =
      some [("type".toList, "signal".toList), ("member".toList, "NameOwnerChanged".toList)] := by
  have listens : toggleWebSocket ownerForm = some _ := toggleWebSocket_of_chosen (by decide)
  obtain ⟨opened, rule, passed, heard, reads⟩ :=
    (rule_heard_iff .permissive ownerForm fun _ => .ok ()).2 _ listens
  refine ⟨_, opened, rule, listens, passed, heard, reads.mpr ⟨trivial, fun field => ?_⟩⟩
  cases field <;> exact forall_of_all (P := fun c => Arrives c ∧ c ≠ '\x27') (by decide)

end Rules

end Dbus2Http.MatchRulePage

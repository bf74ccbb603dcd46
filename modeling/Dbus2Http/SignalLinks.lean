import Dbus2Http.MatchRulePage
import Dbus2Http.PageLinks
import Dbus2Http.ScanTermination

set_option autoImplicit false

namespace Dbus2Http.MatchRulePage

open Cxx (Str)
open Dbus.MatchRule (RuleReader)
open Dbus2Html
open SignalSocket

/-! ### The form as an address fills it -/

/-- The identifier of a form element, under which an address has the value for it. -/
def Field.id : Field → Str
  | .pathNamespace => "pathNamespace".toList
  | field => field.key

/-- What a drop-down list offers. -/
def Field.options : Field → Option (List Str)
  | .type => some ["".toList, "signal".toList, "method_call".toList, "method_return".toList,
      "error".toList]
  | .eavesdrop => some ["".toList, "true".toList, "false".toList]
  | _ => none

/-- What an element shows that is given a value: a list without this value shows nothing, and a line
of text has no line breaks. -/
def Field.setValue (field : Field) (value : Str) : Str :=
  match field.options with
  | some options => if value ∈ options then value else []
  | none => value.filter fun c => c ∉ ['\n', '\r']

/-- The form when the page is loaded. -/
def filled (location : Str) : Form := fun field =>
  match UrlQuery.get location field.id with
  | some value => if value = [] then [] else field.setValue value
  | none => []

def wsPort (location : Str) : Str :=
  match UrlQuery.get location "ws_port".toList with
  | some port => if port = [] then "10058".toList else port
  | none => "10058".toList

/-- The address that the page listens to. -/
def wsUrl (hostName location : Str) (form : Form) : Option Str :=
  (toggleWebSocket form).map fun query => "ws://".toList ++ hostName ++ ":".toList ++ wsPort location ++
    "/dbus/signals?".toList ++ query

/-! ### The links of signals -/

section Links

variable {port name : Str}

theorem matchRuleAddress_eq (some : port ≠ []) : matchRuleAddress port name =
    UrlQuery.address "/dbus/matchrule".toList [("member".toList, name), ("ws_port".toList, port)] := by
  have question : "?member=".toList = '?' :: ("member".toList ++ ['=']) := by decide
  have second : "&ws_port=".toList = '&' :: ("ws_port".toList ++ ['=']) := by decide
  unfold matchRuleAddress UrlQuery.address UrlQuery.write
  rw [question, second, if_neg some]
  generalize "/dbus/matchrule".toList = path, "member".toList = first, "ws_port".toList = second
  simp [List.intercalate_cons_cons]

theorem readPairs_matchRuleAddress (some : port ≠ []) (plain : Name port ∧ Name name) :
    UrlQuery.readPairs (UrlQuery.search (matchRuleAddress port name)) =
      [("member".toList, name), ("ws_port".toList, port)] := by
  have keys : UrlQuery.Plain "member".toList ∧ UrlQuery.Plain "ws_port".toList := by decide
  rw [matchRuleAddress_eq some]
  refine UrlQuery.readPairs_address (by decide) (List.cons_ne_nil _ _) ?_
  exact List.forall_mem_cons.mpr ⟨⟨keys.1, plain.2.plain⟩,
    List.forall_mem_singleton.mpr ⟨keys.2, plain.1.plain⟩⟩

theorem setValue_name (plain : Name name) : Field.member.setValue name = name :=
  List.filter_eq_self.mpr fun c inside => decide_eq_true (plain.unbroken c inside)

/-- The link of a signal fills in its name and nothing else. -/
theorem filled_matchRuleAddress (some : port ≠ []) (plain : Name port ∧ Name name) (typed : name ≠ [])
    (field : Field) : filled (matchRuleAddress port name) field = if field = .member then name else [] := by
  have pairs := readPairs_matchRuleAddress some plain
  by_cases here : field = .member
  · have value : UrlQuery.get (matchRuleAddress port name) Field.member.id = .some name := by
      rw [UrlQuery.get, pairs]
      rfl
    rw [if_pos here, here, filled, value]
    simp only [if_neg typed, setValue_name plain.2]
  · have none : UrlQuery.get (matchRuleAddress port name) field.id = .none := by
      rw [UrlQuery.get, pairs]
      cases field <;> first | rfl | exact absurd rfl here
    rw [if_neg here, filled, none]

theorem requested_matchRuleAddress (some : port ≠ []) :
    requested (matchRuleAddress port name) = "/dbus/matchrule".toList := by
  rw [matchRuleAddress_eq some]
  rfl

theorem wsPort_matchRuleAddress (some : port ≠ []) (plain : Name port ∧ Name name) :
    wsPort (matchRuleAddress port name) = port := by
  have value : UrlQuery.get (matchRuleAddress port name) "ws_port".toList = .some port := by
    rw [UrlQuery.get, readPairs_matchRuleAddress some plain]
    rfl
  rw [wsPort, value]
  exact if_neg some

theorem alphanum_unescaped {c : Char} (letter : c.isAlphanum = true) : c ∈ unescaped := by
  have all : ∀ n < 128, (Char.ofNat n).isAlphanum = true → Char.ofNat n ∈ unescaped := by decide +kernel
  have small : c.toNat < 128 := by
    have classes : (c.isUpper = true ∨ c.isLower = true) ∨ c.isDigit = true := by
      rw [← Bool.or_eq_true, ← Bool.or_eq_true]
      exact letter
    have bounds : c.val.toNat ≤ 90 ∨ c.val.toNat ≤ 122 ∨ c.val.toNat ≤ 57 := by
      rcases classes with (upper | lower) | digit
      · exact .inl (of_decide_eq_true upper).2
      · exact .inr (.inl (of_decide_eq_true ((Bool.and_eq_true _ _).mp lower).2))
      · exact .inr (.inr (of_decide_eq_true ((Bool.and_eq_true _ _).mp digit).2))
    rw [Char.toNat]
    omega
  have here := all c.toNat small
  rw [Char.ofNat_toNat] at here
  exact here letter

/-- The characters of names arrive, each as one byte. -/
theorem nameChar_arrives {c : Char} (allowed : NameChar c) :
    (Arrives c ∧ c ≠ '\x27') ∧ charBytes c = [c] := by
  rcases allowed with letter | mark
  · have plain := alphanum_unescaped letter
    refine ⟨⟨.inl plain, ?_⟩, forall_of_all (P := fun c => charBytes c = [c]) (by decide) c plain⟩
    rintro rfl
    cases letter
  · exact forall_of_all (P := fun c => (Arrives c ∧ c ≠ '\x27') ∧ charBytes c = [c]) (by decide) c mark

theorem name_bytes (plain : Name name) : name.flatMap charBytes = name := by
  rw [List.flatMap_congr fun c inside => (nameChar_arrives (plain c inside)).2]
  exact List.flatMap_singleton' name

theorem chosen_matchRuleAddress (some : port ≠ []) (plain : Name port ∧ Name name) (typed : name ≠ []) :
    chosen (filled (matchRuleAddress port name)) = [("member".toList, name)] := by
  have fields : chosenFields (filled (matchRuleAddress port name)) = [.member] := by
    have only (field : Field) : decide (filled (matchRuleAddress port name) field ≠ []) =
        decide (field = .member) := by
      rw [filled_matchRuleAddress some plain typed]
      by_cases here : field = .member <;> simp [here, typed]
    rw [chosenFields, List.filter_congr fun field _ => only field]
    rfl
  rw [chosen, pairs, fields, List.map_singleton, filled_matchRuleAddress some plain typed, if_pos rfl,
    name_bytes plain.2]
  rfl

end Links

theorem toDecimal_ne_nil (port : Int) : Cxx.toDecimal port ≠ [] := by
  cases port with
  | ofNat n => exact Nat.toDigits_ne_nil
  | negSucc n => exact List.cons_ne_nil _ _

/-- Every signal of an interface in the registry has its link on the page of the interface, in order.
It leads to the page of the match rules, which then listens, without anything being typed, at the port
of the proxy for a rule that the bus reads as this signal's name, if it takes such a rule. -/
theorem signal_links_listen {bus : Bus} {scanner : DbusEnumerator.Scanner}
    (run : DbusEnumerator.ScanRun bus {} scanner) {name : Str} {interface : Interface}
    (found : scanner.context.interfaces.find? name = some interface) (untagged : Untagged interface)
    (named : ∀ signal ∈ interface.signals.keys, signal ≠ [] ∧ Name signal) (reader : RuleReader)
    (takes : ∀ signal ∈ interface.signals.keys, reader.Takes [("member".toList, signal)]) (port : Int)
    (hostName : Str) {Slot : Type} (addMatch : Str → Except Str Slot) :
    List.Forall₂
      (fun signal href => requested href = "/dbus/matchrule".toList ∧ ∃ query opened rule,
        wsUrl hostName href (filled href) = some ("ws://".toList ++ hostName ++ ":".toList ++
          Cxx.toDecimal port ++ "/dbus/signals?".toList ++ query) ∧
        openHandler addMatch query = .ok opened ∧ opened.rule? = some rule ∧
        reader.read rule = some [("member".toList, signal)])
      interface.signals.keys
      (hrefs (header ++ interfaceToHtml (Cxx.toDecimal port) interface ++ footer)) := by
  have keyed := (DbusEnumerator.run_steady run).coherent.members name interface found
  have digits := toDecimal_name port
  have some := toDecimal_ne_nil port
  have links : hrefs (header ++ interfaceToHtml (Cxx.toDecimal port) interface ++ footer) =
      interface.signals.keys.map (matchRuleAddress (Cxx.toDecimal port)) := by
    rw [hrefs_interfacePage ⟨digits.not_mem (by decide), digits.not_mem (by decide)⟩ untagged,
      ← map_name_eq_keys keyed.signals, List.map_map]
    rfl
  rw [links, List.forall₂_map_right_iff, List.forall₂_same]
  intro signal inside
  obtain ⟨typed, plain⟩ := named signal inside
  have form := filled_matchRuleAddress some ⟨digits, plain⟩ typed
  have listens : ∃ query, toggleWebSocket (filled (matchRuleAddress (Cxx.toDecimal port) signal)) =
      .some query := by
    rw [← Option.ne_none_iff_exists']
    intro silent
    have empty := toggleWebSocket_eq_none_iff.mp silent .member
    rw [form, if_pos rfl] at empty
    exact typed empty
  obtain ⟨query, listens⟩ := listens
  obtain ⟨opened, rule, passed, heard, reads⟩ := heard_of_listens reader addMatch listens
  rw [chosen_matchRuleAddress some ⟨digits, plain⟩ typed] at reads
  refine ⟨requested_matchRuleAddress some, query, opened, rule, ?_, passed, heard, reads.mpr ⟨?_, ?_⟩⟩
  · rw [wsUrl, listens, wsPort_matchRuleAddress some ⟨digits, plain⟩]
    rfl
  · exact takes signal inside
  · intro field c typedIn
    rw [form] at typedIn
    by_cases here : field = .member
    · rw [if_pos here] at typedIn
      exact (nameChar_arrives (plain c typedIn)).1
    · rw [if_neg here] at typedIn
      cases typedIn

/-! ### A bell -/

def bellNode : Element :=
  .mk "node".toList [] [.mk "interface".toList [("name".toList, "a.Bell".toList)] [
    .mk "signal".toList [("name".toList, "Rang".toList)] []]]

def bellText : Str :=
  "<node><interface name='a.Bell'><signal name='Rang'/></interface></node>".toList

def bellBus : Bus := DbusEnumerator.rootOnly bellText bellNode

def bellScanned : Scan :=
  let call : Introspection := ⟨"a.bell".toList, "/".toList, bellText⟩
  { context := DbusEnumerator.recorded bellBus.rootElement {} call, asked := [call] }

def bellInterface : Interface :=
  { name := "a.Bell".toList, signals := OrderedMap.empty.insert "Rang".toList { name := "Rang".toList } }

theorem bell_listens : ∃ href query rule opened,
    hrefs (header ++ interfaceToHtml "8080".toList bellInterface ++ footer) = [href] ∧
    wsUrl "localhost".toList href (filled href) =
      some ("ws://localhost:8080/dbus/signals?".toList ++ query) ∧
    openHandler (fun _ => (.ok () : Except Str Unit)) query = .ok opened ∧ opened.rule? = some rule ∧
    Dbus.MatchRule.read rule = some [("member".toList, "Rang".toList)] := by
  have scanned : DbusEnumerator.parseObjectPathsRecursively bellBus "a.bell".toList 1 "/".toList {} =
      .ok (_, bellScanned) := rfl
  have run : DbusEnumerator.ScanRun bellBus {} ⟨bellScanned, []⟩ :=
    .head (.begin {} "a.bell".toList "/".toList) (DbusEnumerator.run_scan scanned [])
  have found : bellScanned.context.interfaces.find? "a.Bell".toList = some bellInterface := rfl
  have untagged : Untagged bellInterface := ⟨by decide, by decide, by decide, by decide⟩
  have named : ∀ signal ∈ bellInterface.signals.keys, signal ≠ [] ∧ Name signal := by decide
  have keys : bellInterface.signals.keys = ["Rang".toList] := rfl
  have links := signal_links_listen run found untagged named .permissive (fun _ _ => trivial) 8080
    "localhost".toList
    fun _ => (.ok () : Except Str Unit)
  rw [keys] at links
  obtain ⟨href, others, ⟨-, query, opened, rule, listens, passed, heard, reads⟩, rest, whole⟩ :=
    List.forall₂_cons_left_iff.mp links
  rw [List.forall₂_nil_left_iff.mp rest] at whole
  exact ⟨href, query, rule, opened, whole, listens, passed, heard, reads⟩

end Dbus2Http.MatchRulePage

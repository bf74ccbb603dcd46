import Dbus2Http.RegistryAnswers
import Dbus2Http.RequestPath
import Dbus2Http.UrlQuery
import Dbus2Http.WebPages

set_option autoImplicit false

namespace Dbus2Http

open Cxx (Str)
open Markup (page texts page_cons page_nil page_append page_flatMap)

namespace Dbus2Html

/-! ### What a browser makes of a page -/

/-- The addresses of the links, each up to its quotation mark. -/
def hrefs (text : Str) : List Str :=
  (Markup.behind "<a href=\"".toList text).map fun link => link.takeWhile (· ≠ '"')

def tryMethods (text : Str) : List Str := Markup.behind "<a class=\"try-method\">".toList text

def spaces : Str := [' ', '\t', '\n', '\x0b', '\x0c', '\r']

def trim (text : Str) : Str := (text.dropWhile (· ∈ spaces)).rdropWhile (· ∈ spaces)

/-- A parameter in a template literal. -/
def orNull (parameter : Option Str) : Str := parameter.getD "null".toList

/-- The address that the script of a page at `location` gives to a method. -/
def tryHref (location method : Str) : Str :=
  "/dbus/try/".toList ++ orNull (UrlQuery.get location "service_name".toList) ++
    orNull (UrlQuery.get location "object_path".toList) ++ "/".toList ++
    orNull (UrlQuery.get location "interface_name".toList) ++ ".".toList ++ trim method

/-- The part of an address that the server chooses the handler by. -/
def requested (address : Str) : Str := address.takeWhile (· ≠ '?')

/-! ### Names -/

/-- The characters in the names of services, objects and interfaces on a bus. -/
def NameChar (c : Char) : Prop := c.isAlphanum = true ∨ c ∈ "_-.:/".toList

def Name (text : Str) : Prop := ∀ c ∈ text, NameChar c

instance (c : Char) : Decidable (NameChar c) := inferInstanceAs (Decidable (_ ∨ _))

instance (text : Str) : Decidable (Name text) := List.decidableBAll _ text

/-- What ends a name in an address or on a page. -/
def marks : Str := "+%&=#?".toList ++ ("<\"".toList ++ ("\x27$".toList ++ spaces))

/-- The texts that the page of an interface shows have no tags in them. -/
structure Untagged (interface : Interface) : Prop where
  name : '<' ∉ interface.name
  methods : ∀ entry ∈ interface.methods.entries, '<' ∉ entry.2.name ∧
    ∀ arg ∈ entry.2.args, '<' ∉ arg.name ∧ '<' ∉ arg.direction ∧ '<' ∉ arg.type
  signals : ∀ entry ∈ interface.signals.entries, '<' ∉ entry.2.name ∧ '"' ∉ entry.2.name ∧
    ∀ arg ∈ entry.2.args, '<' ∉ arg.name
  properties : ∀ entry ∈ interface.properties.entries, '<' ∉ entry.2.name ∧ '<' ∉ entry.2.access ∧
    '<' ∉ entry.2.type

section Names

variable {text : Str}

theorem NameChar.not_mem {c : Char} (allowed : NameChar c) : c ∉ marks := by
  intro special
  have all : (marks.all fun c => !c.isAlphanum && !("_-.:/".toList.contains c)) = true := by decide
  have neither := List.all_eq_true.mp all c special
  rcases allowed with letter | mark
  · simp [letter] at neither
  · simp only [Bool.and_eq_true, Bool.not_eq_true', List.contains_eq_mem,
      decide_eq_false_iff_not] at neither
    exact neither.2 mark

theorem Name.not_mem (name : Name text) {c : Char} (special : c ∈ marks) : c ∉ text :=
  fun inside => (name c inside).not_mem special

theorem Name.plain (name : Name text) : UrlQuery.Plain text :=
  fun c inside special => (name c inside).not_mem (List.mem_append_left _ special)

theorem Name.append {other : Str} (name : Name text) (name' : Name other) : Name (text ++ other) := by
  intro c inside
  rcases List.mem_append.mp inside with here | there
  · exact name c here
  · exact name' c there

theorem Name.unbroken (name : Name text) : ∀ c ∈ text, c ∉ ['\n', '\r'] := by
  intro c inside broken
  refine (name c inside).not_mem (List.mem_append_right _ (List.mem_append_right _
    (List.mem_append_right _ ?_)))
  rcases List.mem_pair.mp broken with rfl | rfl <;> decide

theorem Name.trim_eq (name : Name text) : trim text = text := by
  have solid : ∀ c ∈ text, decide (c ∈ spaces) = false := by
    intro c inside
    refine decide_eq_false fun space => (name c inside).not_mem ?_
    exact List.mem_append_right _ (List.mem_append_right _ (List.mem_append_right _ space))
  have front : text.dropWhile (· ∈ spaces) = text := by
    rw [List.dropWhile_eq_self_iff]
    intro some first
    rw [solid _ (List.getElem_mem some)] at first
    cases first
  rw [trim, front, List.rdropWhile_eq_self_iff]
  intro some last
  rw [solid _ (List.getLast_mem some)] at last
  cases last

theorem toDecimal_name (port : Int) : Name (Cxx.toDecimal port) := by
  have digits (n : Nat) : ∀ c ∈ Nat.toDigits 10 n, NameChar c := by
    intro c inside
    have digit := Nat.isDigit_of_mem_toDigits (by decide) (by decide) inside
    exact .inl (by simp [Char.isAlphanum, digit])
  cases port with
  | ofNat n => exact digits n
  | negSucc n => exact List.forall_mem_cons.mpr ⟨.inr (by decide), digits (n + 1)⟩

end Names

/-! ### The links of the pages -/

theorem hrefs_page {pieces : List (Str × Str)} (spelled : vocabulary.Spells pieces) (before : Str)
    (plain : '<' ∉ before) :
    hrefs (before ++ page pieces) =
      (texts "<a href=\"".toList pieces).map fun link => link.takeWhile (· ≠ '"') := by
  have known : "<a href=\"".toList ∈ tags := by decide
  rw [hrefs, Markup.behind_skip (vocabulary.pieces _ known) plain, Markup.behind_page known spelled]

theorem tryMethods_page {pieces : List (Str × Str)} (spelled : vocabulary.Spells pieces) (before : Str)
    (plain : '<' ∉ before) :
    tryMethods (before ++ page pieces) = texts "<a class=\"try-method\">".toList pieces := by
  have known : "<a class=\"try-method\">".toList ∈ tags := by decide
  rw [tryMethods, Markup.behind_skip (vocabulary.pieces _ known) plain, Markup.behind_page known spelled]

theorem takeWhile_quoted {address : Str} (plain : '"' ∉ address) (rest : Str) :
    (address ++ ("\">".toList ++ rest)).takeWhile (· ≠ '"') = address := by
  have before : ∀ c ∈ address, decide (c ≠ '"') = true :=
    fun c inside => decide_eq_true fun same => plain (same ▸ inside)
  rw [List.takeWhile_append_of_pos before]
  exact List.append_nil _

section InterfacePage

/-- The tags that are looked for. -/
def linkTags : List Str := ["<a class=\"try-method\">".toList, "<a href=\"".toList]

variable {tag : Str} (sought : tag ∈ linkTags)

include sought

theorem texts_unlinked {pieces : List (Str × Str)} (unlinked : ∀ piece ∈ pieces, piece.1 ∉ linkTags) :
    texts tag pieces = [] :=
  Markup.texts_of_absent fun piece inside same => unlinked piece inside (same ▸ sought)

theorem texts_paragraphs {ι : Type} (xs : List ι) (text : ι → Str) :
    texts tag (xs.flatMap fun x => paragraph (text x)) = [] := by
  refine texts_unlinked sought fun piece inside => ?_
  obtain ⟨x, -, here⟩ := List.mem_flatMap.mp inside
  rcases List.mem_pair.mp here with rfl | rfl <;> simp [linkTags]

theorem texts_methodPieces (method : Method) : texts tag (methodPieces method) =
    if tag = "<a class=\"try-method\">".toList then [method.name] else [] := by
  rw [methodPieces, Markup.texts_append, Markup.texts_append, texts_paragraphs sought]
  rcases List.mem_pair.mp sought with rfl | rfl <;> rfl

theorem texts_signalPieces (wsPort : Str) (signal : Signal) : texts tag (signalPieces wsPort signal) =
    if tag = "<a href=\"".toList then
      [matchRuleAddress wsPort signal.name ++ ("\">".toList ++ signal.name)] else [] := by
  rw [signalPieces, Markup.texts_append, Markup.texts_append, texts_paragraphs sought]
  rcases List.mem_pair.mp sought with rfl | rfl <;> rfl

theorem texts_memberPieces (title : Str) (members : List (Str × Str)) :
    texts tag (memberPieces title members) = texts tag members := by
  rw [memberPieces, Markup.texts_append, Markup.texts_append]
  rcases List.mem_pair.mp sought with rfl | rfl <;> exact List.append_nil _

theorem texts_interfacePieces (wsPort : Str) (interface : Interface) :
    texts tag (interfacePieces wsPort interface) =
      (interface.methods.entries.flatMap fun entry => texts tag (methodPieces entry.2)) ++
        interface.signals.entries.flatMap fun entry => texts tag (signalPieces wsPort entry.2) := by
  have header : texts tag headerPieces = [] := by
    rcases List.mem_pair.mp sought with rfl | rfl <;> rfl
  have properties : texts tag (interface.properties.entries.flatMap fun entry =>
      propertyPieces entry.2) = [] := texts_paragraphs sought _ _
  have ends : texts tag ([("</details>".toList, "\n  ".toList), ("<script>".toList, script),
      ("</script>".toList, "\n\n".toList)] ++ footerPieces) = [] := by
    rcases List.mem_pair.mp sought with rfl | rfl <;> rfl
  have heading (name : Str) : texts tag [("<details open>".toList, []), ("<summary>".toList, name),
      ("</summary>".toList, [])] = [] := by
    rcases List.mem_pair.mp sought with rfl | rfl <;> rfl
  rw [interfacePieces, Markup.texts_append, Markup.texts_append, Markup.texts_append,
    Markup.texts_append, Markup.texts_append, header, heading, ends, texts_memberPieces sought,
    texts_memberPieces sought, texts_memberPieces sought, properties, Markup.texts_flatMap,
    Markup.texts_flatMap, List.append_nil, List.append_nil]
  rfl

end InterfacePage

/-! ### Pages without other tags -/

section Spelled

theorem spells_cons {tag text : Str} {pieces : List (Str × Str)} (known : tag ∈ tags) (plain : '<' ∉ text)
    (rest : vocabulary.Spells pieces) : vocabulary.Spells ((tag, text) :: pieces) :=
  List.forall_mem_cons.mpr ⟨⟨known, plain⟩, rest⟩

theorem spells_nil : vocabulary.Spells [] := fun _ inside => absurd inside List.not_mem_nil

theorem flagsToHtml_plain (flags : Flags) : '<' ∉ flagsToHtml flags := by
  rw [flagsToHtml]
  cases flags.deprecated <;> cases flags.methodNoReply <;> cases flags.privileged <;> decide

theorem spells_paragraph {text : Str} (plain : '<' ∉ text) : vocabulary.Spells (paragraph text) :=
  spells_cons (by decide) plain (spells_cons (by decide) List.not_mem_nil spells_nil)

theorem spells_closePieces : vocabulary.Spells closePieces :=
  spells_cons (by decide) List.not_mem_nil spells_nil

theorem spells_memberPieces {title : Str} (plain : '<' ∉ title) {members : List (Str × Str)}
    (spelled : vocabulary.Spells members) : vocabulary.Spells (memberPieces title members) :=
  spells_cons (by decide) List.not_mem_nil (spells_cons (by decide) plain
    (spells_cons (by decide) List.not_mem_nil (spelled.append spells_closePieces)))

theorem spells_methodPieces {method : Method} (name : '<' ∉ method.name)
    (args : ∀ arg ∈ method.args, '<' ∉ arg.name ∧ '<' ∉ arg.direction ∧ '<' ∉ arg.type) :
    vocabulary.Spells (methodPieces method) := by
  refine Markup.Vocabulary.Spells.append ?_ (.append (.flatMap fun arg inside => spells_paragraph ?_)
    spells_closePieces)
  · exact spells_cons (by decide) List.not_mem_nil (spells_cons (by decide) List.not_mem_nil
      (spells_cons (by decide) name (spells_cons (by decide) (flagsToHtml_plain _)
      (spells_cons (by decide) List.not_mem_nil spells_nil))))
  · obtain ⟨name, direction, type⟩ := args arg inside
    simp [name, direction, type]

theorem matchRuleAddress_not_mem {wsPort name : Str} {c : Char}
    (fixed : c ∉ "/dbus/matchrule?member=&ws_port=".toList) (port : c ∉ wsPort) (plain : c ∉ name) :
    c ∉ matchRuleAddress wsPort name := by
  have split : "/dbus/matchrule?member=&ws_port=".toList =
      "/dbus/matchrule".toList ++ ("?member=".toList ++ "&ws_port=".toList) := by decide
  rw [split] at fixed
  simp only [List.mem_append, not_or] at fixed
  unfold matchRuleAddress
  simp only [List.mem_append, not_or]
  refine ⟨fixed.1, fixed.2.1, plain, ?_⟩
  by_cases none : wsPort = []
  · rw [if_pos none]
    exact List.not_mem_nil
  · rw [if_neg none, List.mem_append, not_or]
    exact ⟨fixed.2.2, port⟩

theorem spells_signalPieces {wsPort : Str} (port : '<' ∉ wsPort) {signal : Signal}
    (name : '<' ∉ signal.name) (args : ∀ arg ∈ signal.args, '<' ∉ arg.name) :
    vocabulary.Spells (signalPieces wsPort signal) := by
  have link : '<' ∉ matchRuleAddress wsPort signal.name ++ ("\">".toList ++ signal.name) := by
    simp only [List.mem_append, not_or]
    exact ⟨matchRuleAddress_not_mem (by decide) port name, by decide, name⟩
  refine Markup.Vocabulary.Spells.append ?_ (.append (.flatMap fun arg inside => spells_paragraph ?_)
    spells_closePieces)
  · exact spells_cons (by decide) List.not_mem_nil (spells_cons (by decide) List.not_mem_nil
      (spells_cons (by decide) link (spells_cons (by decide) (flagsToHtml_plain _)
      (spells_cons (by decide) List.not_mem_nil spells_nil))))
  · simp [args arg inside]

theorem spells_propertyPieces {property : Property} (name : '<' ∉ property.name)
    (access : '<' ∉ property.access) (type : '<' ∉ property.type) :
    vocabulary.Spells (propertyPieces property) := by
  refine spells_paragraph ?_
  simp [name, access, type, flagsToHtml_plain]

theorem spells_headerPieces : vocabulary.Spells headerPieces := by
  have all : ∀ piece ∈ headerPieces, piece.1 ∈ tags ∧ '<' ∉ piece.2 := by decide
  exact all

theorem spells_interfacePieces {wsPort : Str} (port : '<' ∉ wsPort) {interface : Interface}
    (untagged : Untagged interface) : vocabulary.Spells (interfacePieces wsPort interface) := by
  have ends : ∀ piece ∈ [("</details>".toList, "\n  ".toList), ("<script>".toList, script),
      ("</script>".toList, "\n\n".toList)] ++ footerPieces, piece.1 ∈ tags ∧ '<' ∉ piece.2 := by
    decide +kernel
  refine spells_headerPieces.append (Markup.Vocabulary.Spells.append ?_ (.append ?_ (.append ?_
    (.append ?_ ends))))
  · exact spells_cons (by decide) List.not_mem_nil (spells_cons (by decide) untagged.name
      (spells_cons (by decide) List.not_mem_nil spells_nil))
  · refine spells_memberPieces (by decide) (.flatMap fun entry inside => ?_)
    obtain ⟨name, args⟩ := untagged.methods entry inside
    exact spells_methodPieces name args
  · refine spells_memberPieces (by decide) (.flatMap fun entry inside => ?_)
    obtain ⟨name, -, args⟩ := untagged.signals entry inside
    exact spells_signalPieces port name args
  · refine spells_memberPieces (by decide) (.flatMap fun entry inside => ?_)
    obtain ⟨name, access, type⟩ := untagged.properties entry inside
    exact spells_propertyPieces name access type

/-- The script finds the methods of an interface on its page, in their order. -/
theorem tryMethods_interfacePage {wsPort : Str} (port : '<' ∉ wsPort) {interface : Interface}
    (untagged : Untagged interface) :
    tryMethods (header ++ interfaceToHtml wsPort interface ++ footer) =
      interface.methods.entries.map fun entry => entry.2.name := by
  have sought : "<a class=\"try-method\">".toList ∈ linkTags := by decide
  rw [interfacePage_eq, tryMethods_page (spells_interfacePieces port untagged) _ (by decide),
    texts_interfacePieces sought]
  have other : "<a class=\"try-method\">".toList ≠ "<a href=\"".toList := by decide
  simp only [texts_methodPieces sought, texts_signalPieces sought, if_neg other, ↓reduceIte]
  rw [← List.map_eq_flatMap, List.flatMap_eq_nil_iff.mpr fun _ _ => rfl, List.append_nil]

/-- The links on it are those of its signals. -/
theorem hrefs_interfacePage {wsPort : Str} (port : '<' ∉ wsPort ∧ '"' ∉ wsPort) {interface : Interface}
    (untagged : Untagged interface) :
    hrefs (header ++ interfaceToHtml wsPort interface ++ footer) =
      interface.signals.entries.map fun entry => matchRuleAddress wsPort entry.2.name := by
  have sought : "<a href=\"".toList ∈ linkTags := by decide
  rw [interfacePage_eq, hrefs_page (spells_interfacePieces port.1 untagged) _ (by decide),
    texts_interfacePieces sought]
  have other : "<a href=\"".toList ≠ "<a class=\"try-method\">".toList := by decide
  simp only [texts_methodPieces sought, texts_signalPieces sought, if_neg other, ↓reduceIte]
  rw [← List.map_eq_flatMap, List.flatMap_eq_nil_iff.mpr fun _ _ => rfl, List.nil_append, List.map_map]
  refine List.map_congr_left fun entry inside => ?_
  obtain ⟨-, quote, -⟩ := untagged.signals entry inside
  exact takeWhile_quoted (matchRuleAddress_not_mem (by decide) port.2 quote) _

theorem map_name_eq_keys {T : Type} [Member T] {members : OrderedMap Str T} (keyed : KeyedByName members) :
    members.entries.map (fun entry => Member.name entry.2) = members.keys :=
  List.map_congr_left fun entry inside => keyed entry.1 entry.2 (members.find?_of_mem inside)

end Spelled

/-! ### The page of all services -/

/-- The address of the link of one interface of an object. -/
def interfaceAddress (service path interface : Str) : Str :=
  UrlQuery.address ("/dbus/interface/html/".toList ++ interface)
    (("object_path".toList, path) :: ("interface_name".toList, interface) ::
      if service = [] then [] else [("service_name".toList, service)])

def linkPieces (service path interface : Str) : List (Str × Str) :=
  [("<p>".toList, []),
    ("<a href=\"".toList, interfaceAddress service path interface ++ ("\">".toList ++ interface)),
    ("</a>".toList, []), ("</p>".toList, [])]

def objectPieces (service : Str) (op : ObjectPath) : List (Str × Str) :=
  openPieces op.path ++ (op.interfaces.flatMap (linkPieces service op.path) ++ closePieces)

/-- A service with the objects that its part of the page shows. -/
abbrev Row := Str × List ObjectPath

def rowPieces (row : Row) : List (Str × Str) :=
  openPieces row.1 ++ (row.2.flatMap (objectPieces row.1) ++ closePieces)

def rowsText (rows : List Row) : Str := page (rows.flatMap rowPieces)

/-- The addresses of the links of some rows, in their order. -/
def addresses (rows : List Row) : List Str :=
  rows.flatMap fun row => row.2.flatMap fun op => op.interfaces.map (interfaceAddress row.1 op.path)

/-- What begins no tag and ends no address. -/
def Unmarked (text : Str) : Prop := ∀ c ∈ "<\"".toList, c ∉ text

instance (text : Str) : Decidable (Unmarked text) := List.decidableBAll _ _

theorem Name.unmarked {text : Str} (name : Name text) : Unmarked text := fun _ mark =>
  name.not_mem (List.mem_append_right _ (List.mem_append_left _ mark))

def Row.Clean (row : Row) : Prop :=
  Unmarked row.1 ∧ ∀ op ∈ row.2, Unmarked op.path ∧ ∀ interface ∈ op.interfaces, Unmarked interface

section Rows

theorem linkToHtml_eq (service : Str) (op : ObjectPath) (interface : Str) :
    linkToHtml op service interface = page (linkPieces service op.path interface) := by
  have question : "?object_path=".toList = '?' :: ("object_path".toList ++ ['=']) := by decide
  have second : "&interface_name=".toList = '&' :: ("interface_name".toList ++ ['=']) := by decide
  have third : "&service_name=".toList = '&' :: ("service_name".toList ++ ['=']) := by decide
  unfold linkToHtml linkPieces interfaceAddress UrlQuery.address UrlQuery.write
  rw [question, second, third]
  -- from here on the texts of the page are only moved about
  generalize "<p>".toList = p, "<a href=\"".toList = a, "/dbus/interface/html/".toList = path,
    "object_path".toList = first, "interface_name".toList = second, "service_name".toList = third,
    "\">".toList = close, "</a>".toList = a', "</p>".toList = p'
  by_cases none : service = []
  · simp [none, List.intercalate_cons_cons]
  · simp [none, List.intercalate_cons_cons]

theorem objectPathToHtml_eq (service : Str) (op : ObjectPath) :
    objectPathToHtml op service = page (objectPieces service op) := by
  unfold objectPathToHtml objectPieces openPieces closePieces detailsOpen detailsClose
  simp only [page_append, page_cons, page_nil, page_flatMap, ← linkToHtml_eq, List.append_assoc,
    List.nil_append, List.append_nil]

theorem detailsOpen_eq (summary : Str) : detailsOpen summary = page (openPieces summary) := by
  unfold detailsOpen openPieces
  simp only [page_cons, page_nil, List.append_assoc, List.nil_append, List.append_nil]

theorem interfaceAddress_not_mem {c : Char} (punctuation : c ∉ ['?', '&', '='])
    (fixed : c ∉ "/dbus/interface/html/".toList ++ "object_path".toList ++ "interface_name".toList ++
      "service_name".toList)
    {service path interface : Str} (plain : c ∉ service ∧ c ∉ path ∧ c ∉ interface) :
    c ∉ interfaceAddress service path interface := by
  simp only [List.mem_append, not_or] at fixed
  obtain ⟨⟨⟨start, first⟩, second⟩, third⟩ := fixed
  refine UrlQuery.not_mem_address punctuation ?_ (List.forall_mem_cons.mpr ⟨⟨first, plain.2.1⟩,
    List.forall_mem_cons.mpr ⟨⟨second, plain.2.2⟩, ?_⟩⟩)
  · rw [List.mem_append, not_or]
    exact ⟨start, plain.2.2⟩
  · by_cases none : service = []
    · rw [if_pos none]
      exact fun _ inside => absurd inside List.not_mem_nil
    · rw [if_neg none]
      exact List.forall_mem_singleton.mpr ⟨third, plain.1⟩

theorem interfaceAddress_unmarked {c : Char} (mark : c ∈ "<\"".toList) {service path interface : Str}
    (clean : Unmarked service ∧ Unmarked path ∧ Unmarked interface) :
    c ∉ interfaceAddress service path interface := by
  have plain := And.intro (clean.1 c mark) (And.intro (clean.2.1 c mark) (clean.2.2 c mark))
  rcases List.mem_pair.mp mark with rfl | rfl <;>
    exact interfaceAddress_not_mem (by decide) (by decide) plain

theorem spells_openPieces {summary : Str} (plain : '<' ∉ summary) :
    vocabulary.Spells (openPieces summary) :=
  spells_cons (by decide) List.not_mem_nil (spells_cons (by decide) plain
    (spells_cons (by decide) List.not_mem_nil spells_nil))

theorem spells_rowPieces {row : Row} (clean : row.Clean) : vocabulary.Spells (rowPieces row) := by
  have angle : '<' ∈ "<\"".toList := List.mem_cons_self
  refine (spells_openPieces (clean.1 _ angle)).append (.append (.flatMap fun op shown => ?_)
    spells_closePieces)
  obtain ⟨path, interfaces⟩ := clean.2 op shown
  refine (spells_openPieces (path _ angle)).append (.append (.flatMap fun interface listed => ?_)
    spells_closePieces)
  have name := interfaces interface listed
  have link : '<' ∉ interfaceAddress row.1 op.path interface ++ ("\">".toList ++ interface) := by
    simp only [List.mem_append, not_or]
    exact ⟨interfaceAddress_unmarked angle ⟨clean.1, path, name⟩, by decide, name _ angle⟩
  exact spells_cons (by decide) List.not_mem_nil (spells_cons (by decide) link
    (spells_cons (by decide) List.not_mem_nil (spells_cons (by decide) List.not_mem_nil spells_nil)))

theorem texts_rowPieces (row : Row) : texts "<a href=\"".toList (rowPieces row) =
    row.2.flatMap fun op => op.interfaces.map fun interface =>
      interfaceAddress row.1 op.path interface ++ ("\">".toList ++ interface) := by
  have opened (summary : Str) : texts "<a href=\"".toList (openPieces summary) = [] := rfl
  have closed : texts "<a href=\"".toList closePieces = [] := rfl
  rw [rowPieces, Markup.texts_append, Markup.texts_append, opened, closed, Markup.texts_flatMap,
    List.nil_append, List.append_nil]
  refine List.flatMap_congr fun op _ => ?_
  rw [objectPieces, Markup.texts_append, Markup.texts_append, opened, closed, Markup.texts_flatMap,
    List.nil_append, List.append_nil, List.map_eq_flatMap]
  rfl

/-- The last tag before the footer is not that of a link. -/
theorem indexPieces_last (rows : List Row) : ∃ front last,
    headerPieces ++ rows.flatMap rowPieces = front ++ [last] ∧ last.1 ∉ linkTags := by
  induction rows using List.reverseRecOn with
  | nil =>
      refine ⟨headerPieces.dropLast, ("<body>".toList, "\n".toList), rfl, ?_⟩
      decide
  | append_singleton rows row =>
      refine ⟨headerPieces ++ (rows.flatMap rowPieces ++ (openPieces row.1 ++
        row.2.flatMap (objectPieces row.1))), ("</details>".toList, []), ?_, by decide⟩
      rw [List.flatMap_append, List.flatMap_singleton, rowPieces, closePieces]
      simp only [List.append_assoc]

theorem hrefs_indexPage {rows : List Row} (clean : ∀ row ∈ rows, row.Clean) :
    hrefs (header ++ rowsText rows ++ footer) = addresses rows := by
  have sought : "<a href=\"".toList ∈ linkTags := by decide
  obtain ⟨front, last, pieces, unlinked⟩ := indexPieces_last rows
  have spelled : vocabulary.Spells (headerPieces ++ rows.flatMap rowPieces) :=
    spells_headerPieces.append (.flatMap fun row inside => spells_rowPieces (clean row inside))
  rw [pieces] at spelled
  have lastSpelled := spelled last List.mem_concat_self
  have whole : header ++ rowsText rows ++ footer =
      "\n".toList ++ page (front ++ ((last.1, last.2 ++ "\n".toList) :: footerPieces)) := by
    rw [header_eq, footer_eq, rowsText, List.append_assoc "\n".toList, ← page_append, pieces]
    simp only [page_append, page_cons, page_nil, List.append_assoc, List.nil_append]
  have footed : vocabulary.Spells (front ++ ((last.1, last.2 ++ "\n".toList) :: footerPieces)) := by
    have ends : ∀ piece ∈ footerPieces, piece.1 ∈ tags ∧ '<' ∉ piece.2 := by decide
    refine Markup.Vocabulary.Spells.append (fun piece inside =>
      spelled piece (List.mem_append_left _ inside)) (spells_cons lastSpelled.1 ?_ ends)
    rw [List.mem_append, not_or]
    exact ⟨lastSpelled.2, by decide⟩
  have other : last.1 ≠ "<a href=\"".toList := fun same => unlinked (same ▸ sought)
  have linked : texts "<a href=\"".toList (front ++ ((last.1, last.2 ++ "\n".toList) :: footerPieces)) =
      texts "<a href=\"".toList (headerPieces ++ rows.flatMap rowPieces) := by
    rw [pieces, Markup.texts_append, Markup.texts_append, Markup.texts_cons_of_ne other,
      Markup.texts_cons_of_ne other]
    rfl
  have header : texts "<a href=\"".toList headerPieces = [] := rfl
  rw [whole, hrefs_page footed _ (by decide), linked, Markup.texts_append, header, List.nil_append,
    Markup.texts_flatMap, addresses, List.map_flatMap]
  refine List.flatMap_congr fun row inside => ?_
  rw [texts_rowPieces, List.map_flatMap]
  refine List.flatMap_congr fun op shown => ?_
  rw [List.map_map]
  refine List.map_congr_left fun interface listed => ?_
  obtain ⟨service, objects⟩ := clean row inside
  obtain ⟨path, interfaces⟩ := objects op shown
  exact takeWhile_quoted (interfaceAddress_unmarked (by decide)
    ⟨service, path, interfaces interface listed⟩) _

end Rows

/-! ### From one address to the next -/

section Addresses

variable {service path interface : Str}

theorem requested_interfaceAddress (named : Name interface) :
    requested (interfaceAddress service path interface) = "/dbus/interface/html/".toList ++ interface := by
  have before : ∀ c ∈ "/dbus/interface/html/".toList ++ interface, decide (c ≠ '?') = true := by
    intro c inside
    refine decide_eq_true ?_
    rintro rfl
    rcases List.mem_append.mp inside with fixed | name
    · exact absurd fixed (by decide)
    · exact named.not_mem (by decide) name
  rw [requested, interfaceAddress, UrlQuery.address, List.takeWhile_append_of_pos before]
  exact List.append_nil _

/-- The script reads back what the page of all services has put into the address. -/
theorem tryHref_interfaceAddress (some : service ≠ []) (names : Name service ∧ Name path ∧ Name interface)
    {method : Str} (name : Name method) :
    tryHref (interfaceAddress service path interface) method = "/dbus/try/".toList ++
      WebService.buildPath ⟨service, path, interface, method⟩ := by
  have start : '?' ∉ "/dbus/interface/html/".toList ++ interface := by
    rw [List.mem_append, not_or]
    exact ⟨by decide, names.2.2.not_mem (by decide)⟩
  have pairs : UrlQuery.readPairs (UrlQuery.search (interfaceAddress service path interface)) =
      [("object_path".toList, path), ("interface_name".toList, interface),
        ("service_name".toList, service)] := by
    rw [interfaceAddress, if_neg some]
    refine UrlQuery.readPairs_address start (List.cons_ne_nil _ _) ?_
    have keys : UrlQuery.Plain "object_path".toList ∧ UrlQuery.Plain "interface_name".toList ∧
        UrlQuery.Plain "service_name".toList := by decide
    exact List.forall_mem_cons.mpr ⟨⟨keys.1, names.2.1.plain⟩, List.forall_mem_cons.mpr
      ⟨⟨keys.2.1, names.2.2.plain⟩, List.forall_mem_singleton.mpr ⟨keys.2.2, names.1.plain⟩⟩⟩
  have read : UrlQuery.get (interfaceAddress service path interface) "object_path".toList = .some path ∧
      UrlQuery.get (interfaceAddress service path interface) "interface_name".toList = .some interface ∧
      UrlQuery.get (interfaceAddress service path interface) "service_name".toList = .some service := by
    simp only [UrlQuery.get, pairs]
    exact ⟨rfl, rfl, rfl⟩
  unfold tryHref WebService.buildPath orNull
  rw [read.1, read.2.1, read.2.2, name.trim_eq]
  simp only [Option.getD_some, List.append_assoc]
  rfl

end Addresses

end Dbus2Html

end Dbus2Http

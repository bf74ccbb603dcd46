import Dbus2Http.GetHandlers
import Dbus2Http.Markup
import Dbus2Http.TryPage

set_option autoImplicit false

namespace Dbus2Http.Dbus2Html

open Cxx (Str Run)
open Markup (page page_nil page_cons page_append page_flatMap Vocabulary Piece)
open WebService (lines)

/-! ### The texts of the pages -/

/-- One of the overloads of `to_html`, as are the functions below it. -/
def flagsToHtml (flags : Flags) : Str :=
  (if flags.deprecated then "(deprecated)".toList else []) ++
    ((if flags.methodNoReply then "(no reply)".toList else []) ++
    if flags.privileged then "(privileged)".toList else [])

def methodToHtml (method : Method) : Str :=
  "<details>".toList ++ "<summary>".toList ++
    ("<a class=\"try-method\">".toList ++ method.name ++ "</a>".toList) ++ flagsToHtml method.flags ++
    "</summary>".toList ++
    (method.args.flatMap fun arg => "<p>".toList ++ arg.name ++ "[".toList ++ arg.direction ++
      "]: ".toList ++ arg.type ++ "</p>".toList) ++
    "</details>".toList

/-- The name of an argument stands in the place of its type too. -/
def signalToHtml (wsPort : Str) (signal : Signal) : Str :=
  "<details>".toList ++ "<summary>".toList ++
    ("<a href=\"".toList ++ "/dbus/matchrule".toList ++ "?member=".toList ++ signal.name ++
      (if wsPort = [] then [] else "&ws_port=".toList ++ wsPort) ++ "\">".toList) ++
    signal.name ++ "</a>".toList ++ flagsToHtml signal.flags ++ "</summary>".toList ++
    (signal.args.flatMap fun arg =>
      "<p>".toList ++ arg.name ++ ": ".toList ++ arg.name ++ "</p>".toList) ++
    "</details>".toList

def propertyToHtml (property : Property) : Str :=
  "<p>".toList ++ property.name ++ "[".toList ++ property.access ++ "]".toList ++
    flagsToHtml property.flags ++ " : ".toList ++ property.type ++ "</p>".toList

/-- It completes the links of the methods. -/
def script : Str := lines [
  "\n",
  "    const params = new URLSearchParams(window.location.search);\n",
  "    const object_path = params.get('object_path');\n",
  "    const service_name = params.get('service_name');\n",
  "    const interface_name = params.get('interface_name');\n",
  "    const dynamicLinks = document.querySelectorAll('.try-method');\n",
  "    dynamicLinks.forEach(link => \x7b\n",
  "      const method = link.textContent.trim();\n",
  "      link.href = `/dbus/try/$\x7bservice_name\x7d$\x7bobject_path\x7d/",
  "$\x7binterface_name\x7d.$\x7bmethod\x7d`;\n",
  "    \x7d);\n",
  "  "]

def tryJump : Str :=
  "\n  ".toList ++ ("<script>".toList ++ (script ++ ("</script>".toList ++ "\n".toList)))

/-- The members come in the order of their maps. -/
def interfaceToHtml (wsPort : Str) (interface : Interface) : Str :=
  "<details open>".toList ++ "<summary>".toList ++ interface.name ++ "</summary>".toList ++
    "<details open><summary>Methods</summary>".toList ++
    (interface.methods.entries.flatMap fun entry => methodToHtml entry.2) ++ "</details>".toList ++
    "<details open><summary>Signals</summary>".toList ++
    (interface.signals.entries.flatMap fun entry => signalToHtml wsPort entry.2) ++
    "</details>".toList ++
    "<details open><summary>Properties</summary>".toList ++
    (interface.properties.entries.flatMap fun entry => propertyToHtml entry.2) ++
    "</details>".toList ++ "</details>".toList ++ tryJump

/-- `to_html` of the whole registry, when nothing is added meanwhile. -/
def toHtml (context : InterfaceContext) : Run Str :=
  context.getServiceNames.foldlM (fun oss serviceName => do
    let oss ← (context.getObjectPathString serviceName).foldlM (fun oss path => do
      let object ← context.getObjectPath serviceName path
      return oss ++ objectPathToHtml object serviceName) (oss ++ detailsOpen serviceName)
    return oss ++ detailsClose) []

/-- What stands before and after the text of every page. -/
def header : Str := lines [
  "\n", "<!DOCTYPE html>\n", "<html>\n", "<head>\n", "  <style>\n", "    details, p \x7b\n",
  "      margin-left: 20px;\n", "      margin-top: 4px;\n", "      margin-bottom: 4px;\n", "    \x7d\n",
  "  </style>\n", "</head>\n", "<body>\n"]

def footer : Str := lines ["\n", "</body>\n", "</html>\n"]

/-! ### The pages as tags with texts -/

def tags : List Str :=
  ["<details>".toList, "<details open>".toList, "<summary>".toList, "</summary>".toList,
    "</details>".toList, "<p>".toList, "</p>".toList, "<a class=\"try-method\">".toList,
    "<a href=\"".toList, "</a>".toList, "<script>".toList, "</script>".toList, "<!DOCTYPE html>".toList,
    "<html>".toList, "<head>".toList, "<style>".toList, "</style>".toList, "</head>".toList,
    "<body>".toList, "</body>".toList, "</html>".toList]

def vocabulary : Vocabulary where
  tags := tags
  pieces := by
    have all : ∀ tag ∈ tags, tag.head? = some '<' ∧ '<' ∉ tag.tail := by decide
    intro tag inside
    obtain ⟨head, plain⟩ := all tag inside
    cases tag with
    | nil => cases head
    | cons c rest => exact ⟨rest, by rw [Option.some.inj head], plain⟩
  apart := by decide

def openPieces (summary : Str) : List (Str × Str) :=
  [("<details>".toList, []), ("<summary>".toList, summary), ("</summary>".toList, [])]

def closePieces : List (Str × Str) := [("</details>".toList, [])]

def paragraph (text : Str) : List (Str × Str) := [("<p>".toList, text), ("</p>".toList, [])]

def methodPieces (method : Method) : List (Str × Str) :=
  [("<details>".toList, []), ("<summary>".toList, []), ("<a class=\"try-method\">".toList, method.name),
    ("</a>".toList, flagsToHtml method.flags), ("</summary>".toList, [])] ++
    ((method.args.flatMap fun arg =>
      paragraph (arg.name ++ ("[".toList ++ (arg.direction ++ ("]: ".toList ++ arg.type))))) ++ closePieces)

/-- The address of the link of a signal. -/
def matchRuleAddress (wsPort name : Str) : Str :=
  "/dbus/matchrule".toList ++ ("?member=".toList ++
    (name ++ if wsPort = [] then [] else "&ws_port=".toList ++ wsPort))

def signalPieces (wsPort : Str) (signal : Signal) : List (Str × Str) :=
  [("<details>".toList, []), ("<summary>".toList, []),
    ("<a href=\"".toList, matchRuleAddress wsPort signal.name ++ ("\">".toList ++ signal.name)),
    ("</a>".toList, flagsToHtml signal.flags), ("</summary>".toList, [])] ++
    ((signal.args.flatMap fun arg => paragraph (arg.name ++ (": ".toList ++ arg.name))) ++ closePieces)

def propertyPieces (property : Property) : List (Str × Str) :=
  paragraph (property.name ++ ("[".toList ++ (property.access ++ ("]".toList ++
    (flagsToHtml property.flags ++ (" : ".toList ++ property.type))))))

def memberPieces (title : Str) (members : List (Str × Str)) : List (Str × Str) :=
  [("<details open>".toList, []), ("<summary>".toList, title), ("</summary>".toList, [])] ++
    (members ++ closePieces)

def headerPieces : List (Str × Str) :=
  [("<!DOCTYPE html>".toList, "\n".toList), ("<html>".toList, "\n".toList),
    ("<head>".toList, "\n  ".toList),
    ("<style>".toList, lines ["\n", "    details, p \x7b\n", "      margin-left: 20px;\n",
      "      margin-top: 4px;\n", "      margin-bottom: 4px;\n", "    \x7d\n", "  "]),
    ("</style>".toList, "\n".toList), ("</head>".toList, "\n".toList), ("<body>".toList, "\n".toList)]

/-- The footer, behind the text before it. -/
def footerPieces : List (Str × Str) :=
  [("</body>".toList, "\n".toList), ("</html>".toList, "\n".toList)]

def interfacePieces (wsPort : Str) (interface : Interface) : List (Str × Str) :=
  headerPieces ++
    ([("<details open>".toList, []), ("<summary>".toList, interface.name), ("</summary>".toList, [])] ++
    (memberPieces "Methods".toList (interface.methods.entries.flatMap fun entry => methodPieces entry.2) ++
    (memberPieces "Signals".toList
      (interface.signals.entries.flatMap fun entry => signalPieces wsPort entry.2) ++
    (memberPieces "Properties".toList
      (interface.properties.entries.flatMap fun entry => propertyPieces entry.2) ++
    ([("</details>".toList, "\n  ".toList), ("<script>".toList, script),
      ("</script>".toList, "\n\n".toList)] ++ footerPieces)))))

theorem header_eq : header = "\n".toList ++ page headerPieces := by decide +kernel

theorem footer_eq : footer = "\n".toList ++ page footerPieces := by decide

theorem heading_eq :
    "<details open><summary>Methods</summary>".toList = "<details open>".toList ++ ("<summary>".toList ++
        ("Methods".toList ++ "</summary>".toList)) ∧
      "<details open><summary>Signals</summary>".toList = "<details open>".toList ++ ("<summary>".toList ++
        ("Signals".toList ++ "</summary>".toList)) ∧
      "<details open><summary>Properties</summary>".toList = "<details open>".toList ++
        ("<summary>".toList ++ ("Properties".toList ++ "</summary>".toList)) := by
  decide

section Equal

theorem methodToHtml_eq (method : Method) : methodToHtml method = page (methodPieces method) := by
  unfold methodToHtml methodPieces closePieces paragraph
  simp only [page_append, page_flatMap, page_cons, page_nil, List.append_assoc, List.nil_append,
    List.append_nil]

theorem signalToHtml_eq (wsPort : Str) (signal : Signal) :
    signalToHtml wsPort signal = page (signalPieces wsPort signal) := by
  unfold signalToHtml signalPieces matchRuleAddress closePieces paragraph
  simp only [page_append, page_flatMap, page_cons, page_nil, List.append_assoc, List.nil_append,
    List.append_nil]

theorem propertyToHtml_eq (property : Property) :
    propertyToHtml property = page (propertyPieces property) := by
  unfold propertyToHtml propertyPieces paragraph
  simp only [page_cons, page_nil, List.append_assoc, List.append_nil]

theorem page_memberPieces (title : Str) (members : List (Str × Str)) :
    page (memberPieces title members) = "<details open>".toList ++ ("<summary>".toList ++
      (title ++ ("</summary>".toList ++ (page members ++ "</details>".toList)))) := by
  unfold memberPieces closePieces
  simp only [page_append, page_cons, page_nil, List.append_assoc, List.nil_append, List.append_nil]

/-- The whole page of one interface. -/
theorem interfacePage_eq (wsPort : Str) (interface : Interface) :
    header ++ interfaceToHtml wsPort interface ++ footer =
      "\n".toList ++ page (interfacePieces wsPort interface) := by
  obtain ⟨methods, signals, properties⟩ := heading_eq
  have blank : "\n\n".toList = "\n".toList ++ "\n".toList := by decide
  unfold interfaceToHtml interfacePieces tryJump
  simp only [header_eq, footer_eq, methods, signals, properties, blank, page_append,
    page_flatMap, page_memberPieces, page_cons, page_nil, methodToHtml_eq, signalToHtml_eq,
    propertyToHtml_eq, List.append_assoc, List.nil_append, List.append_nil]

end Equal

end Dbus2Http.Dbus2Html

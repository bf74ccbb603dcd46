import Dbus2Http.PageNavigation
import Dbus2Http.StoredNumbers

set_option autoImplicit false

namespace Dbus2Http.WebService

open Cxx (Str)
open Markup (page texts page_cons page_nil Vocabulary)
open Dbus2Html (Name)
open Rand2Json (Draws randArguments)

/-! ### What the button of the try page does -/

def buttonTag : Str := "<button onclick=\"\n      fetch('".toList

def textareaTag : Str := "<textarea id=\"in\" style=\"width:200px; height:200px;\">".toList

/-- The addresses the button fetches, each up to its quotation mark. -/
def fetched (text : Str) : List Str :=
  (Markup.behind buttonTag text).map fun js => js.takeWhile (· ≠ '\x27')

/-- What it sends there, as long as nobody types. -/
def fetchedBody (text : Str) : List Str := Markup.behind textareaTag text

/-! ### The page as tags with texts -/

def tryTags : List Str :=
  ["<!DOCTYPE html>".toList, "<html>".toList, "<body>".toList, "<p>".toList, "</p>".toList,
    "<div style=\"display:flex; align-items:center; gap:10px;\">".toList, textareaTag,
    "</textarea>".toList,
    lines ["<script src=\"https://cdn.jsdelivr.net/npm/msgpack-lite", "@0.1.26/dist/msgpack.min.js\">"],
    "</script>".toList, buttonTag, "</button>".toList,
    "<textarea id=\"out\" style=\"width:200px; height:200px;\" readonly>".toList, "</div>".toList,
    "</body>".toList, "</html>".toList]

def tryVocabulary : Vocabulary where
  tags := tryTags
  pieces := by
    have all : ∀ tag ∈ tryTags, tag.head? = some '<' ∧ '<' ∉ tag.tail := by decide
    intro tag inside
    obtain ⟨head, plain⟩ := all tag inside
    cases tag with
    | nil => cases head
    | cons c rest => exact ⟨rest, by rw [Option.some.inj head], plain⟩
  apart := by decide

/-- What the button does besides, and with the answer. -/
def fetchLines : List String := [
  "',\n",
  "            \x7b method: 'POST',\n",
  "              headers: \x7b'Content-Type':'application/json'\x7d,\n",
  "              body: document.getElementById('in').value\x7d)\n",
  "           .then(r => \x7b\n",
  "              const ct = r.headers.get('Content-Type') || '';\n",
  "              if (ct.includes('application/json')) \x7b\n",
  "                  return r.json();\n",
  "              \x7d else if (ct.includes('application/x-msgpack') ",
  "|| ct.includes('application/msgpack')) \x7b\n",
  "                  return r.arrayBuffer().then(buf => msgpack.decode(",
  "new Uint8Array(buf)));\n",
  "              \x7d else \x7b\n",
  "                  return r.text();\n",
  "              \x7d\n",
  "            \x7d)\n",
  "           .then(data => \x7b\n",
  "              if (typeof data === 'object' && data !== null) \x7b\n",
  "                  document.getElementById('out').value = JSON.stringify(data, null, 2);\n",
  "              \x7d else \x7b\n",
  "                  document.getElementById('out').value = data;\n",
  "              \x7d\n",
  "           \x7d)\n",
  "      \">\n",
  "      call\n"]

def fetchRest : Str := lines fetchLines ++ "    ".toList

def tryPieces (value : Placeholder → Str) : List (Str × Str) :=
  [("<!DOCTYPE html>".toList, "\n".toList), ("<html>".toList, "\n  ".toList),
    ("<body>".toList, "\n    ".toList),
    ("<p>".toList, "service: ".toList ++ value .serviceName), ("</p>".toList, "\n    ".toList),
    ("<p>".toList, "object: ".toList ++ value .objectPath), ("</p>".toList, "\n    ".toList),
    ("<p>".toList, "interface: ".toList ++ value .interfaceName), ("</p>".toList, "\n    ".toList),
    ("<p>".toList, "method: ".toList ++ value .methodName), ("</p>".toList, "\n    ".toList),
    ("<p>".toList, "request signature: ".toList ++ value .requestSignature),
    ("</p>".toList, "\n    ".toList),
    ("<p>".toList, "response signature: ".toList ++ value .responseSignature),
    ("</p>".toList, "\n    ".toList),
    ("<div style=\"display:flex; align-items:center; gap:10px;\">".toList, "\n    ".toList),
    (textareaTag, value .request), ("</textarea>".toList, "\n    ".toList),
    (lines ["<script src=\"https://cdn.jsdelivr.net/npm/msgpack-lite",
      "@0.1.26/dist/msgpack.min.js\">"], []),
    ("</script>".toList, "\n    ".toList), (buttonTag, value .path ++ fetchRest),
    ("</button>".toList, "\n    ".toList),
    ("<textarea id=\"out\" style=\"width:200px; height:200px;\" readonly>".toList, []),
    ("</textarea>".toList, "\n    ".toList), ("</div>".toList, "\n  ".toList),
    ("</body>".toList, "\n".toList), ("</html>".toList, "\n".toList)]

/-- What follows the button. -/
def tryEnd : List String := [
  "    </button>\n",
  "    <textarea id=\"out\" style=\"width:200px; height:200px;\" readonly></textarea>\n",
  "    </div>\n",
  "  </body>\n",
  "</html>\n"]

theorem tryEnd_eq : lines tryEnd = "    ".toList ++ ("</button>".toList ++ ("\n    ".toList ++
    ("<textarea id=\"out\" style=\"width:200px; height:200px;\" readonly>".toList ++
    ("</textarea>".toList ++ ("\n    ".toList ++ ("</div>".toList ++ ("\n  ".toList ++
    ("</body>".toList ++ ("\n".toList ++ ("</html>".toList ++ "\n".toList)))))))))) := by
  decide

theorem request_after : lines ["</textarea>\n",
      "    <script src=\"https://cdn.jsdelivr.net/npm/msgpack-lite",
      "@0.1.26/dist/msgpack.min.js\"></script>\n", "    <button onclick=\"\n", "      fetch('"] =
    "</textarea>".toList ++ ("\n    ".toList ++
      (lines ["<script src=\"https://cdn.jsdelivr.net/npm/msgpack-lite",
        "@0.1.26/dist/msgpack.min.js\">"] ++ ("</script>".toList ++ ("\n    ".toList ++ buttonTag)))) := by
  decide

theorem signatures_after : lines ["</p>\n",
      "    <div style=\"display:flex; align-items:center; gap:10px;\">\n",
      "    <textarea id=\"in\" style=\"width:200px; height:200px;\">"] =
    "</p>".toList ++ ("\n    ".toList ++
      ("<div style=\"display:flex; align-items:center; gap:10px;\">".toList ++ ("\n    ".toList ++
      textareaTag))) := by
  decide

/-- The line of one name ends, and that of the next begins. -/
theorem names_after :
    lines ["</p>\n", "    <p>object: "] =
        "</p>".toList ++ ("\n    ".toList ++ ("<p>".toList ++ "object: ".toList)) ∧
      lines ["</p>\n", "    <p>interface: "] =
        "</p>".toList ++ ("\n    ".toList ++ ("<p>".toList ++ "interface: ".toList)) ∧
      lines ["</p>\n", "    <p>method: "] =
        "</p>".toList ++ ("\n    ".toList ++ ("<p>".toList ++ "method: ".toList)) ∧
      lines ["</p>\n", "    <p>request signature: "] =
        "</p>".toList ++ ("\n    ".toList ++ ("<p>".toList ++ "request signature: ".toList)) ∧
      lines ["</p>\n", "    <p>response signature: "] =
        "</p>".toList ++ ("\n    ".toList ++ ("<p>".toList ++ "response signature: ".toList)) := by
  decide

theorem render_tryTemplate (value : Placeholder → Str) :
    tryTemplate.render value = "\n".toList ++ page (tryPieces value) := by
  have head : lines ["\n", "<!DOCTYPE html>\n", "<html>\n", "  <body>\n", "    <p>service: "] =
      "\n".toList ++ ("<!DOCTYPE html>".toList ++ ("\n".toList ++ ("<html>".toList ++ ("\n  ".toList ++
        ("<body>".toList ++ ("\n    ".toList ++ ("<p>".toList ++ "service: ".toList))))))) := by decide
  have button : lines (fetchLines ++ tryEnd) = lines fetchLines ++ lines tryEnd := List.flatMap_append
  obtain ⟨object, interface, method, request, response⟩ := names_after
  have whole : tryTemplate.render value =
      lines ["\n", "<!DOCTYPE html>\n", "<html>\n", "  <body>\n", "    <p>service: "] ++
      (value .serviceName ++ (lines ["</p>\n", "    <p>object: "] ++
      (value .objectPath ++ (lines ["</p>\n", "    <p>interface: "] ++
      (value .interfaceName ++ (lines ["</p>\n", "    <p>method: "] ++
      (value .methodName ++ (lines ["</p>\n", "    <p>request signature: "] ++
      (value .requestSignature ++ (lines ["</p>\n", "    <p>response signature: "] ++
      (value .responseSignature ++ (lines ["</p>\n",
        "    <div style=\"display:flex; align-items:center; gap:10px;\">\n",
        "    <textarea id=\"in\" style=\"width:200px; height:200px;\">"] ++
      (value .request ++ (lines ["</textarea>\n",
        "    <script src=\"https://cdn.jsdelivr.net/npm/msgpack-lite",
        "@0.1.26/dist/msgpack.min.js\"></script>\n", "    <button onclick=\"\n", "      fetch('"] ++
      (value .path ++ (lines (fetchLines ++ tryEnd) ++ [])))))))))))))))) := rfl
  rw [whole, head, object, interface, method, request, response, signatures_after, request_after, button,
    tryEnd_eq]
  unfold tryPieces fetchRest
  simp only [page_cons, page_nil, List.append_assoc, List.nil_append, List.append_nil]

section Reading

theorem fetchLines_plain : '<' ∉ lines fetchLines := by
  rw [not_mem_lines]
  simp only [fetchLines, List.forall_mem_cons]
  repeat' apply And.intro
  all_goals first | exact not_mem_toList rfl (by decide) | simp

variable {value : Placeholder → Str}

theorem spells_tryPieces (plain : ∀ q, '<' ∉ value q) : tryVocabulary.Spells (tryPieces value) := by
  have labelled (label : String) (q : Placeholder) (clean : '<' ∉ label.toList) :
      '<' ∉ label.toList ++ value q := by
    rw [List.mem_append, not_or]
    exact ⟨clean, plain q⟩
  have button : '<' ∉ value .path ++ fetchRest := by
    rw [fetchRest, List.mem_append, List.mem_append, not_or, not_or]
    exact ⟨plain .path, fetchLines_plain, by decide⟩
  have known : ∀ piece ∈ tryPieces value, piece.1 ∈ tryTags := by
    have tags : (tryPieces value).map Prod.fst = (tryPieces fun _ => []).map Prod.fst := rfl
    have all : ∀ tag ∈ (tryPieces fun _ => []).map Prod.fst, tag ∈ tryTags := by
      simp [tryPieces, tryTags]
    intro piece inside
    exact all piece.1 (tags ▸ List.mem_map_of_mem inside)
  have clean : ∀ piece ∈ tryPieces value, '<' ∉ piece.2 := by
    simp only [tryPieces, List.forall_mem_cons]
    exact ⟨by decide, by decide, by decide, labelled _ _ (by decide), by decide, labelled _ _ (by decide),
      by decide, labelled _ _ (by decide), by decide, labelled _ _ (by decide), by decide,
      labelled _ _ (by decide), by decide, labelled _ _ (by decide), by decide, by decide,
      plain .request, by decide, by decide, by decide, button, by decide, by decide, by decide,
      by decide, by decide, by decide, fun _ none => absurd none List.not_mem_nil⟩
  exact fun piece inside => ⟨known piece inside, clean piece inside⟩

/-- The button fetches what stands for the path. -/
theorem fetched_render (plain : ∀ q, '<' ∉ value q) (unquoted : '\x27' ∉ value .path) :
    fetched (tryTemplate.render value) = [value .path] := by
  have known : buttonTag ∈ tryTags := by decide +kernel
  have button : texts buttonTag (tryPieces value) = [value .path ++ fetchRest] := rfl
  have before : ∀ c ∈ value .path, decide (c ≠ '\x27') = true :=
    fun c inside => decide_eq_true fun same => unquoted (same ▸ inside)
  rw [fetched, render_tryTemplate, Markup.behind_skip (tryVocabulary.pieces _ known) (by decide),
    Markup.behind_page known (spells_tryPieces plain), button, List.map_singleton,
    List.takeWhile_append_of_pos before]
  exact congrArg (fun text => [text]) (List.append_nil _)

theorem fetchedBody_render (plain : ∀ q, '<' ∉ value q) :
    fetchedBody (tryTemplate.render value) = [value .request] := by
  have known : textareaTag ∈ tryTags := by decide +kernel
  have area : texts textareaTag (tryPieces value) = [value .request] := rfl
  rw [fetchedBody, render_tryTemplate, Markup.behind_skip (tryVocabulary.pieces _ known) (by decide),
    Markup.behind_page known (spells_tryPieces plain), area]

end Reading

/-! ### From the page to the call -/

/-- The sample as text: the library reads the same back, up to the way integers are stored; nothing in
the text is replaced by a later pass, and it stands for itself on the page. -/
structure SampleText (parse : Str → Except ParseFailure Json) (dump : Json → Except Str Str)
    (request back : Json) (text : Str) : Prop where
  written : dump request = .ok text
  read : parse text = .ok back
  same : back.canon = request.canon
  plain : ∀ c ∈ text, c ∉ "$<&".toList

section Calling

variable {parts : RequestPath} {method : Method}

/-- The path on the page is the one the page was asked for. -/
theorem tryValue_path (parts : RequestPath) (text : Str) (method : Method) :
    tryValue parts text method .path = "/dbus/call/".toList ++ buildPath parts := by
  unfold tryValue buildPath
  simp only [List.append_assoc]
  rfl

/-- The four parts of a path are names. -/
structure RequestPath.Named (parts : RequestPath) : Prop where
  service : Name parts.serviceName
  object : Name parts.objectPath
  interface : Name parts.interfaceName
  member : Name parts.method

theorem RequestPath.Named.buildPath (named : parts.Named) : Name (buildPath parts) :=
  ((((named.service.append named.object).append (by decide)).append named.interface).append
    (by decide)).append named.member

theorem RequestPath.Named.callPath (named : parts.Named) :
    Name ("/dbus/call/".toList ++ WebService.buildPath parts) := by
  have start : Name "/dbus/call/".toList := by decide
  exact start.append named.buildPath

theorem tryValue_not_mem {c : Char} (mark : c ∈ Dbus2Html.marks) (named : parts.Named) {text : Str}
    (sample : c ∉ text) (signatures : c ∉ method.inSignature ∧ c ∉ method.outSignature)
    (q : Placeholder) : c ∉ tryValue parts text method q := by
  cases q with
  | path =>
      rw [tryValue_path]
      exact named.callPath.not_mem mark
  | request => exact sample
  | serviceName => exact named.service.not_mem mark
  | objectPath => exact named.object.not_mem mark
  | interfaceName => exact named.interface.not_mem mark
  | methodName => exact named.member.not_mem mark
  | requestSignature => exact signatures.1
  | responseSignature => exact signatures.2

/-- No value has a placeholder in it. -/
theorem putIn_tryValue {text : Str} (plain : ∀ q, '$' ∉ tryValue parts text method q) :
    PutIn (tryValue parts text method) passes := by
  rw [putIn_iff]
  refine List.pairwise_of_forall fun earlier later inside => ?_
  have dollar : '$' ∈ later.text := by cases later <;> decide
  exact absurd (inside.subset dollar) (plain earlier)

theorem randArguments_complete {args : List Argument} (distinct : (args.map Argument.name).Nodup)
    (sampled : ∀ arg ∈ args, Rand2Json.SampledArgument arg) (draws : Draws) (now : Nat) :
    ∃ request, randArguments draws args now = .ok request ∧ Rand2Json.RequestFor args request := by
  have start : Rand2Json.RequestFor [] (Rand2Json.ArgumentState.mk .null 0 now).result :=
    ⟨.inl ⟨rfl, rfl⟩, by simp⟩
  obtain ⟨state, ran, complete⟩ := Rand2Json.randArguments_fold draws start sampled distinct
  exact ⟨state.result, by rw [randArguments, ran, Cxx.bind_ok], complete⟩

variable {M R : Type} [Dbus.LawfulWriter M] [Dbus.MessageReader R]

/-- A click on the button of a try page, before anything is typed, sends just the call the page is for.
For every method whose arguments have names of their own and can be sampled, whatever is drawn: the
page is made; the button fetches the path that the page was asked for, with the text of the sample as
body; and the handler of this request reads the sample back, fills all arguments from what it has read
and sends one call, of this method, to this object of this service. -/
theorem button_calls (server : Server M R) (draws : Draws) (dump : Json → Except Str Str) (now : Nat)
    {context later calling : InterfaceContext} (whole : parts.Parsed) (named : parts.Named)
    (known : ∀ registry ∈ [context, later, calling],
      registry.get parts.interfaceName parts.method = .ok method)
    (distinct : (method.inArgs.map Argument.name).Nodup)
    (sampled : ∀ arg ∈ method.inArgs, Rand2Json.SampledArgument arg)
    (plain : ∀ c ∈ "$<".toList, c ∉ method.inSignature ∧ c ∉ method.outSignature)
    (json : ∀ request, randArguments draws method.inArgs now = .ok request →
      ∃ back text, SampleText server.text.parse dump request back text)
    {fresh : M} (created : server.connection.createMethodCall parts.serviceName parts.objectPath
      parts.interfaceName parts.method = .ok fresh) (empty : Dbus.LawfulWriter.draft fresh = .empty) :
    ∃ page body request back message,
      getTry draws dump context later now (buildPath parts) = .ok page ∧ page.status = 200 ∧
      fetched page.content = ["/dbus/call/".toList ++ buildPath parts] ∧
      fetchedBody page.content = [body] ∧
      randArguments draws method.inArgs now = .ok request ∧
      server.text.parse body = .ok back ∧ back.canon = request.canon ∧
      Json2Message.fillArguments fresh method.inArgs back = .ok message ∧
      ∀ fuel sent, (postCall server fuel calling sent (buildPath parts) body).1 = sent ++
        [⟨parts.serviceName, parts.objectPath, parts.interfaceName, parts.method, message⟩] := by
  simp only [List.forall_mem_cons] at known
  obtain ⟨first, second, third, -⟩ := known
  obtain ⟨request, drawn, complete⟩ := randArguments_complete distinct sampled draws now
  obtain ⟨back, text, written⟩ := json request drawn
  obtain ⟨message, fills⟩ := Rand2Json.fillArguments_request empty (complete.canon written.same)
  have absent {c : Char} (special : c ∈ "$<".toList) (q : Placeholder) :
      c ∉ tryValue parts text method q := by
    have sample : c ∉ text := fun inside =>
      written.plain c inside (List.mem_append_left "&".toList special)
    have mark : c ∈ Dbus2Html.marks := by rcases List.mem_pair.mp special with rfl | rfl <;> decide
    exact tryValue_not_mem mark named sample (plain c special) q
  have parsed := parse_buildPath whole
  have randomly : randRequest draws context parts.interfaceName parts.method now = .ok request := by
    rw [randRequest, first, Cxx.bind_ok, drawn]
  have page := getTry_of_putIn parsed randomly written.written second
    (putIn_tryValue (absent (by decide)))
  refine ⟨_, text, request, back, message, page, rfl, ?_, ?_, drawn, written.read, written.same, fills,
    fun fuel sent => ?_⟩
  · have unquoted : '\x27' ∉ tryValue parts text method .path := by
      rw [tryValue_path]
      exact named.callPath.not_mem (by decide)
    rw [fetched_render (absent (by decide)) unquoted, tryValue_path]
  · exact fetchedBody_render (absent (by decide))
  · have prepared := DbusCaller.prepare_eq_ok.mpr ⟨fresh, created, third, fills⟩
    rw [postCall, parsed]
    simp only [written.read, DbusCaller.call, prepared]

end Calling

/-! ### The page of the desk light -/

def levelText : Str := "\x7b\n  \"level\": 7\n\x7d".toList

/-- The library for requests with a level. -/
def levelDump : Json → Except Str Str
  | .object [(_, .integer n)] =>
      .ok ("\x7b\n  \"level\": ".toList ++ Cxx.toDecimal n.1 ++ "\n\x7d".toList)
  | _ => .error "not written here".toList

def deskServer : Server Dbus.Draft Dbus.Cursor :=
  { peerServer with
    text := {
      parse := fun body =>
        if body = levelText then .ok (.object [("level".toList, .unsigned (Dbus.IntTy.uint64.wrap 7))])
        else .error (.parseError "parse error".toList)
      dump := levelDump
      toMsgpack := fun _ => [] } }

def deskParts : RequestPath := ⟨"a.desk".toList, "/".toList, "x.Light".toList, "Set".toList⟩

def setLevel : Method :=
  { name := "Set".toList, args := [⟨"level".toList, "y".toList, "in".toList, {}⟩] }

/-- The level that is on the page is sent to the light. -/
theorem desk_button_calls : ∃ page body message,
    getTry lampDraws levelDump deskScanned.context deskScanned.context 0 (buildPath deskParts) = .ok page ∧
    fetched page.content = ["/dbus/call/".toList ++ buildPath deskParts] ∧
    fetchedBody page.content = [body] ∧
    (postCall deskServer 0 deskScanned.context [] (buildPath deskParts) body).1 =
      [⟨"a.desk".toList, "/".toList, "x.Light".toList, "Set".toList, message⟩] := by
  have known : ∀ registry ∈ [deskScanned.context, deskScanned.context, deskScanned.context],
      registry.get deskParts.interfaceName deskParts.method = .ok setLevel := by
    simp only [List.forall_mem_cons]
    exact ⟨rfl, rfl, rfl, fun _ none => absurd none List.not_mem_nil⟩
  have drawn : randArguments lampDraws setLevel.inArgs 0 =
      .ok (.object [("level".toList, .integer ⟨7, by decide⟩)]) := rfl
  have sampled : ∀ arg ∈ setLevel.inArgs, Rand2Json.SampledArgument arg := by
    intro arg inside
    rw [List.mem_singleton.mp inside]
    refine ⟨by decide, [.basic (.int .byte)], by simp, fun t member => ?_, rfl⟩
    rw [List.mem_singleton.mp member]
    exact .basic (by decide)
  have plain : ∀ c ∈ "$<".toList, c ∉ setLevel.inSignature ∧ c ∉ setLevel.outSignature := by
    intro c special
    rcases List.mem_pair.mp special with rfl | rfl <;> decide
  have json : ∀ request, randArguments lampDraws setLevel.inArgs 0 = .ok request →
      ∃ back text, SampleText deskServer.text.parse levelDump request back text := by
    intro request made
    rw [drawn] at made
    obtain rfl := Except.ok.inj made
    have clean : (levelText.all fun c => c ∉ "$<&".toList) = true := by decide
    exact ⟨_, levelText, rfl, rfl, rfl,
      fun c inside => of_decide_eq_true (List.all_eq_true.mp clean c inside)⟩
  obtain ⟨page, body, _, _, message, made, -, path, shown, -, -, -, -, sends⟩ := button_calls deskServer
    lampDraws levelDump 0 ⟨by decide, by decide, by decide, by decide, rfl⟩
    ⟨by decide, by decide, by decide, by decide⟩ known (by decide) sampled plain json rfl rfl
  exact ⟨page, body, message, made, path, shown, sends 0 []⟩

end Dbus2Http.WebService

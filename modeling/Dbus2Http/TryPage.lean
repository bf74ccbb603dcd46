import Dbus2Http.CallHandler
import Dbus2Http.Rand2Json
import Dbus2Http.SignalSocket

set_option autoImplicit false

namespace Dbus2Http.WebService

open Cxx (Str Run)
open DbusCaller (raising)
open Rand2Json (Draws randArguments)
open Substitution

/-! ### The page -/

/-- What the page leaves open. -/
inductive Placeholder
  | path | request | serviceName | objectPath | interfaceName | methodName | requestSignature
  | responseSignature
deriving DecidableEq, Repr

def Placeholder.text : Placeholder → Str
  | path => "$path$".toList
  | request => "$request$".toList
  | serviceName => "$service_name$".toList
  | objectPath => "$object_path$".toList
  | interfaceName => "$interface_name$".toList
  | methodName => "$method_name$".toList
  | requestSignature => "$request_signature$".toList
  | responseSignature => "$response_signature$".toList

def lines (pieces : List String) : Str := pieces.flatMap String.toList

def tryTemplate : Template Placeholder Char where
  head :=
    lines ["\n", "<!DOCTYPE html>\n", "<html>\n", "  <body>\n", "    <p>service: "]
  fields := [
    (.serviceName, lines ["</p>\n", "    <p>object: "]),
    (.objectPath, lines ["</p>\n", "    <p>interface: "]),
    (.interfaceName, lines ["</p>\n", "    <p>method: "]),
    (.methodName, lines ["</p>\n", "    <p>request signature: "]),
    (.requestSignature, lines ["</p>\n", "    <p>response signature: "]),
    (.responseSignature, lines [
      "</p>\n",
      "    <div style=\"display:flex; align-items:center; gap:10px;\">\n",
      "    <textarea id=\"in\" style=\"width:200px; height:200px;\">"]),
    (.request, lines [
      "</textarea>\n",
      "    <script src=\"https://cdn.jsdelivr.net/npm/msgpack-lite",
      "@0.1.26/dist/msgpack.min.js\"></script>\n",
      "    <button onclick=\"\n",
      "      fetch('"]),
    (.path, lines [
      "',\n",
      "            \x7b method: 'POST',\n",
      "              headers: \x7b'Content-Type':'application/json'\x7d,\n",
      "              body: document.getElementById('in').value\x7d)\n",
      "           .then(r => \x7b\n",
      "              const ct = r.headers.get('Content-Type') || '';\n",
      "              if (ct.includes('application/json')) \x7b\n",
      "                  return r.json();\n",
      "              \x7d else if (ct.includes('application/x-msgpack') ",
      "|| ct.includes('application/msgpack')) \x7b\n",
      "                  return r.arrayBuffer().then(buf => msgpack.decode(",
      "new Uint8Array(buf)));\n",
      "              \x7d else \x7b\n",
      "                  return r.text();\n",
      "              \x7d\n",
      "            \x7d)\n",
      "           .then(data => \x7b\n",
      "              if (typeof data === 'object' && data !== null) \x7b\n",
      "                  document.getElementById('out').value = JSON.stringify(data, null, 2);\n",
      "              \x7d else \x7b\n",
      "                  document.getElementById('out').value = data;\n",
      "              \x7d\n",
      "           \x7d)\n",
      "      \">\n",
      "      call\n",
      "    </button>\n",
      "    <textarea id=\"out\" style=\"width:200px; height:200px;\" readonly></textarea>\n",
      "    </div>\n",
      "  </body>\n",
      "</html>\n"])]

def tryHtml : Str := tryTemplate.render Placeholder.text

/-! ### The handler -/

/-- The same function as the one of the socket. -/
def replaceAll (input fromText toText : Str) : Run Str := SignalSocket.replaceAll input fromText toText

/-- There is one way to cut the input at the occurrences found from left to right, and both copies
join the pieces of it with `to`; the number of rounds is bounded by the input alone. -/
theorem replaceAll_pieces {fromText : Str} (nonempty : fromText ≠ []) (input : Str) :
    (∃! pieces, Cut fromText input pieces) ∧
      ∀ pieces, Cut fromText input pieces →
        fromText.intercalate pieces = input ∧
        ∀ toText,
          replaceAll input fromText toText = .ok (toText.intercalate pieces) ∧
          SignalSocket.replaceAll input fromText toText = .ok (toText.intercalate pieces) ∧
          ∀ rounds, input.length < rounds →
            SignalSocket.replaceLoop fromText toText rounds input 0 =
              .ok (toText.intercalate pieces) := by
  obtain ⟨found, cut, joined⟩ := exists_cut nonempty input
  constructor
  · exact ⟨found, cut, fun other cut' => cut'.unique cut⟩
  · intro pieces cut'
    rw [cut'.unique cut]
    refine ⟨cut.intercalate_eq, fun toText => ?_⟩
    have whole := SignalSocket.replaceAll_eq nonempty input toText
    rw [joined toText] at whole
    refine ⟨whole, whole, fun rounds enough => ?_⟩
    have ends := SignalSocket.replaceLoop_eq nonempty toText enough []
    rw [joined toText] at ends
    exact ends

/-- In a run of three letters only the first two are the pattern, whatever is put in for it. -/
theorem replaceAll_overlapping :
    (∃! pieces, Cut "aa".toList "xaaay".toList pieces) ∧
      ∀ pieces, Cut "aa".toList "xaaay".toList pieces →
        "aa".toList.intercalate pieces = "xaaay".toList ∧
        ∀ toText,
          replaceAll "xaaay".toList "aa".toList toText = .ok (toText.intercalate pieces) ∧
          SignalSocket.replaceAll "xaaay".toList "aa".toList toText =
            .ok (toText.intercalate pieces) ∧
          ∀ rounds, "xaaay".toList.length < rounds →
            SignalSocket.replaceLoop "aa".toList toText rounds "xaaay".toList 0 =
              .ok (toText.intercalate pieces) :=
  replaceAll_pieces (by decide) "xaaay".toList

def randRequest (draws : Draws) (context : InterfaceContext) (interfaceName methodName : Str)
    (now : Nat) : Run Json := do
  let methodType : Method ← context.get interfaceName methodName
  randArguments draws methodType.inArgs now

/-- The eight calls; the registry is read in between. -/
def fillTryHtml (context : InterfaceContext) (parts : RequestPath) (request : Str) : Run Str := do
  let filledHtml ← replaceAll tryHtml "$path$".toList
    ("/dbus/call/".toList ++ parts.serviceName ++ parts.objectPath ++ "/".toList ++
      parts.interfaceName ++ ".".toList ++ parts.method)
  let filledHtml ← replaceAll filledHtml "$request$".toList request
  let filledHtml ← replaceAll filledHtml "$service_name$".toList parts.serviceName
  let filledHtml ← replaceAll filledHtml "$object_path$".toList parts.objectPath
  let filledHtml ← replaceAll filledHtml "$interface_name$".toList parts.interfaceName
  let filledHtml ← replaceAll filledHtml "$method_name$".toList parts.method
  let methodType : Method ← context.get parts.interfaceName parts.method
  let filledHtml ← replaceAll filledHtml "$request_signature$".toList methodType.inSignature
  replaceAll filledHtml "$response_signature$".toList methodType.outSignature

/-- What the handler does inside `try`. The update thread may write between the two times the
registry is read, and `dump` is the one that indents. -/
def tryContent (draws : Draws) (dump : Json → Except Str Str) (context later : InterfaceContext)
    (now : Nat) (parts : RequestPath) : Run Str := do
  let request ← randRequest draws context parts.interfaceName parts.method now
  let request ← raising .jsonTypeError (dump request)
  fillTryHtml later parts request

/-- `GET /dbus/try/(.*)` -/
def getTry (draws : Draws) (dump : Json → Except Str Str) (context later : InterfaceContext)
    (now : Nat) (path : Str) : Run Response :=
  match parseDbusRequestPath path with
  | .error fault => .error fault
  | .ok none => .ok {
      status := 400
      content := "invalid or incomplete dbus path".toList
      contentType := "text/plain".toList }
  | .ok (some parts) =>
      match tryContent draws dump context later now parts with
      | .ok filledHtml => .ok { content := filledHtml, contentType := "text/html".toList }
      | .error (.thrown exn) => .ok {
          status := 500
          content := "\x7b\"message\": \"".toList ++ Cxx.cStr exn.what ++ "\"\x7d".toList
          contentType := "application/json".toList }
      | .error .outOfFuel => .error .outOfFuel

/-- What each placeholder stands for. -/
def tryValue (parts : RequestPath) (request : Str) (methodType : Method) : Placeholder → Str
  | .path => "/dbus/call/".toList ++ parts.serviceName ++ parts.objectPath ++ "/".toList ++
      parts.interfaceName ++ ".".toList ++ parts.method
  | .request => request
  | .serviceName => parts.serviceName
  | .objectPath => parts.objectPath
  | .interfaceName => parts.interfaceName
  | .methodName => parts.method
  | .requestSignature => methodType.inSignature
  | .responseSignature => methodType.outSignature

/-- The passes in the order of the calls. -/
def passes : List Placeholder :=
  [.path, .request, .serviceName, .objectPath, .interfaceName, .methodName, .requestSignature,
    .responseSignature]

/-! ### One pass -/

section Passes

variable (value : Placeholder → Str)

def pass (html : Str) (p : Placeholder) : Run Str := replaceAll html p.text (value p)

/-- What the page shows when some passes are done and each has put its value in. -/
def shownAfter (done : List Placeholder) (q : Placeholder) : Str :=
  if q ∈ done then value q else q.text

theorem text_nonempty (p : Placeholder) : p.text ≠ [] := by
  cases p <;> decide

theorem text_apart {p q : Placeholder} (different : p ≠ q) : ¬ p.text <:+: q.text := by
  revert p q
  have all : ∀ p ∈ passes, ∀ q ∈ passes, p ≠ q → ¬ p.text <:+: q.text := by decide
  intro p q
  exact all p (by cases p <;> decide) q (by cases q <;> decide)

theorem mem_passes (p : Placeholder) : p ∈ passes := by
  cases p <;> decide

theorem exists_field (p : Placeholder) : ∃ field ∈ tryTemplate.fields, field.1 = p := by
  cases p <;> simp [tryTemplate]

theorem not_mem_lines {c : Char} {pieces : List String} :
    c ∉ lines pieces ↔ ∀ piece ∈ pieces, c ∉ piece.toList := by
  simp [lines]

theorem not_mem_toList {c : Char} {s : String} {chars : List Char} (same : s = String.ofList chars)
    (fresh : c ∉ chars) : c ∉ s.toList := by
  rw [same, String.toList_ofList]
  exact fresh

theorem dollar_fresh : '$' ∉ tryTemplate.head ∧ ∀ field ∈ tryTemplate.fields, '$' ∉ field.2 := by
  simp only [tryTemplate, List.forall_mem_cons, not_mem_lines]
  repeat' apply And.intro
  all_goals first | exact not_mem_toList rfl (by decide) | simp

/-- Between two slots there is a character that no placeholder has. -/
theorem try_separates (p : Placeholder) : tryTemplate.Separates '$' p.text := by
  have cut : ∀ field ∈ tryTemplate.fields, (field.2.head?.any fun c => c ∉ p.text) = true := by
    cases p <;> decide
  refine ⟨by cases p <;> rfl, dollar_fresh.1, fun field inside => ?_⟩
  obtain ⟨c, here, absent⟩ := (Option.any_eq_true _ _).mp (cut field inside)
  exact ⟨dollar_fresh.2 field inside, c, here, of_decide_eq_true absent⟩

theorem pass_render (p : Placeholder) (shown : Placeholder → Str) :
    pass value (tryTemplate.render shown) p =
      .ok (tryTemplate.render fun q => substitute p.text (value p) (shown q)) := by
  rw [pass, replaceAll, SignalSocket.replaceAll_eq (text_nonempty p),
    (try_separates p).substitute_render]

/-- Each slot is gone through by every pass on its own. -/
theorem foldlM_pass (ps : List Placeholder) (shown : Placeholder → Str) :
    ps.foldlM (pass value) (tryTemplate.render shown) =
      .ok (tryTemplate.render fun q =>
        ps.foldl (fun slot p => substitute p.text (value p) slot) (shown q)) := by
  induction ps generalizing shown with
  | nil => rfl
  | cons p ps ih =>
      rw [List.foldlM_cons, pass_render, Cxx.bind_ok, ih]
      rfl

/-- A pass spares what the pass before it has put in. -/
def Spares (earlier later : Placeholder) : Prop :=
  later.text <:+: value earlier → value later = later.text

theorem substitute_shownAfter (done : List Placeholder) (p q : Placeholder) :
    substitute p.text (value p) (shownAfter value done q) = shownAfter value (done ++ [p]) q ↔
      (q ∈ done → Spares value q p) := by
  by_cases before : q ∈ done
  · have among : q ∈ done ++ [p] := List.mem_append_left _ before
    rw [shownAfter, shownAfter, if_pos before, if_pos among,
      substitute_eq_self_iff (text_nonempty p), Spares]
    exact ⟨fun spares _ => spares, fun spares => spares before⟩
  · rw [shownAfter, if_neg before]
    refine iff_of_true ?_ fun inside => absurd inside before
    by_cases here : q = p
    · rw [here, substitute_all (text_nonempty p), shownAfter, if_pos (by simp)]
    · rw [substitute_of_absent (text_nonempty p) (text_apart (Ne.symm here)), shownAfter,
        if_neg (by simp [before, here])]

/-- In no slot is the text longer after a pass, or in none is it shorter. -/
theorem length_substitute_shownAfter (done : List Placeholder) (p : Placeholder) :
    (∀ q, (substitute p.text (value p) (shownAfter value done q)).length ≤
        (shownAfter value (done ++ [p]) q).length) ∨
      ∀ q, (shownAfter value (done ++ [p]) q).length ≤
        (substitute p.text (value p) (shownAfter value done q)).length := by
  have kept : ∀ q, q ∉ done → substitute p.text (value p) (shownAfter value done q) =
      shownAfter value (done ++ [p]) q := by
    intro q untouched
    exact (substitute_shownAfter value done p q).mpr fun before => absurd before untouched
  have shown : ∀ q, q ∈ done → shownAfter value done q = value q ∧
      shownAfter value (done ++ [p]) q = value q := by
    intro q before
    exact ⟨if_pos before, if_pos (List.mem_append_left _ before)⟩
  rcases Nat.le_total (value p).length p.text.length with shorter | longer
  · refine .inl fun q => ?_
    by_cases before : q ∈ done
    · rw [(shown q before).1, (shown q before).2]
      exact length_substitute_le (text_nonempty p) shorter (value q)
    · exact Nat.le_of_eq (congrArg List.length (kept q before))
  · refine .inr fun q => ?_
    by_cases before : q ∈ done
    · rw [(shown q before).1, (shown q before).2]
      exact le_length_substitute (text_nonempty p) longer (value q)
    · exact Nat.le_of_eq (congrArg List.length (kept q before)).symm

/-- The pass of one placeholder puts in its value and alters nothing exactly when it spares every
value before it. -/
theorem pass_shownAfter_iff (done : List Placeholder) (p : Placeholder) :
    pass value (tryTemplate.render (shownAfter value done)) p =
        .ok (tryTemplate.render (shownAfter value (done ++ [p]))) ↔
      ∀ q ∈ done, Spares value q p := by
  have slots : (∀ field ∈ tryTemplate.fields,
        substitute p.text (value p) (shownAfter value done field.1) =
          shownAfter value (done ++ [p]) field.1) ↔ ∀ q ∈ done, Spares value q p := by
    constructor
    · intro same q before
      obtain ⟨field, inside, rfl⟩ := exists_field q
      exact (substitute_shownAfter value done p field.1).mp (same field inside) before
    · intro spares field _
      exact (substitute_shownAfter value done p field.1).mpr (spares field.1)
  rw [pass_render, Except.ok.injEq, ← slots]
  rcases length_substitute_shownAfter value done p with shorter | longer
  · exact Template.render_eq_iff_of_shorter fun field _ => shorter field.1
  · rw [eq_comm, Template.render_eq_iff_of_shorter fun field _ => longer field.1]
    simp only [eq_comm]

/-! ### All passes -/

/-- The passes put in one value after another, and none of them alters a value. -/
def PutIn (ps : List Placeholder) : Prop :=
  ∀ done, done <+: ps →
    done.foldlM (pass value) tryHtml = .ok (tryTemplate.render (shownAfter value done))

theorem shownAfter_nil : shownAfter value [] = Placeholder.text := by
  funext q
  simp [shownAfter]

theorem putIn_append (ps : List Placeholder) (p : Placeholder) :
    PutIn value (ps ++ [p]) ↔ PutIn value ps ∧ ∀ q ∈ ps, Spares value q p := by
  have last : PutIn value ps →
      ((ps ++ [p]).foldlM (pass value) tryHtml =
        .ok (tryTemplate.render (shownAfter value (ps ++ [p]))) ↔ ∀ q ∈ ps, Spares value q p) := by
    intro put
    rw [List.foldlM_append, put ps (List.prefix_refl ps), Cxx.bind_ok, List.foldlM_cons,
      ← pass_shownAfter_iff value ps p]
    cases pass value (tryTemplate.render (shownAfter value ps)) p <;> rfl
  constructor
  · intro put
    have before : PutIn value ps := fun done front => put done (front.trans (List.prefix_append _ _))
    exact ⟨before, (last before).mp (put _ (List.prefix_refl _))⟩
  · rintro ⟨before, spares⟩ done front
    rcases List.prefix_concat_iff.mp front with all | shorter
    · rw [all]
      exact (last before).mpr spares
    · exact before done shorter

theorem putIn_iff (ps : List Placeholder) : PutIn value ps ↔ ps.Pairwise (Spares value) := by
  induction ps using List.reverseRecOn with
  | nil =>
      refine iff_of_true ?_ List.Pairwise.nil
      intro done front
      rw [List.prefix_nil.mp front, shownAfter_nil]
      rfl
  | append_singleton ps p ih =>
      rw [putIn_append, ih, List.pairwise_append]
      simp

end Passes

/-- The calls of the handler are the passes. -/
theorem fillTryHtml_eq {context : InterfaceContext} {parts : RequestPath} {methodType : Method}
    (known : context.get parts.interfaceName parts.method = .ok methodType) (request : Str) :
    fillTryHtml context parts request =
      passes.foldlM (pass (tryValue parts request methodType)) tryHtml := by
  have unrolled : ∀ html, passes.foldlM (pass (tryValue parts request methodType)) html = (do
      let html ← pass (tryValue parts request methodType) html .path
      let html ← pass (tryValue parts request methodType) html .request
      let html ← pass (tryValue parts request methodType) html .serviceName
      let html ← pass (tryValue parts request methodType) html .objectPath
      let html ← pass (tryValue parts request methodType) html .interfaceName
      let html ← pass (tryValue parts request methodType) html .methodName
      let html ← pass (tryValue parts request methodType) html .requestSignature
      pass (tryValue parts request methodType) html .responseSignature) := by
    intro html
    simp only [passes, List.foldlM_cons, List.foldlM_nil, bind_pure]
  rw [unrolled, fillTryHtml]
  simp only [known, Cxx.bind_ok]
  rfl

section Handler

variable {draws : Draws} {dump : Json → Except Str Str} {context later : InterfaceContext}
  {now : Nat} {path requestText : Str} {parts : RequestPath} {request : Json} {methodType : Method}

theorem getTry_of_filled (parsed : parseDbusRequestPath path = .ok (some parts))
    (sampled : randRequest draws context parts.interfaceName parts.method now = .ok request)
    (dumped : dump request = .ok requestText) {page : Str}
    (filled : fillTryHtml later parts requestText = .ok page) :
    getTry draws dump context later now path =
      .ok { content := page, contentType := "text/html".toList } := by
  have content : tryContent draws dump context later now parts = .ok page := by
    rw [tryContent, sampled, Cxx.bind_ok, dumped, raising, Cxx.bind_ok, filled]
  rw [getTry, parsed]
  simp only [content]

/-- In each slot stands the value, gone through by the passes after its own. -/
theorem getTry_eq (parsed : parseDbusRequestPath path = .ok (some parts))
    (sampled : randRequest draws context parts.interfaceName parts.method now = .ok request)
    (dumped : dump request = .ok requestText)
    (known : later.get parts.interfaceName parts.method = .ok methodType) :
    getTry draws dump context later now path =
      .ok {
        content := tryTemplate.render fun q => passes.foldl
          (fun slot p => substitute p.text (tryValue parts requestText methodType p) slot) q.text
        contentType := "text/html".toList } := by
  apply getTry_of_filled parsed sampled dumped
  rw [fillTryHtml_eq known, tryHtml, foldlM_pass]

theorem getTry_of_putIn (parsed : parseDbusRequestPath path = .ok (some parts))
    (sampled : randRequest draws context parts.interfaceName parts.method now = .ok request)
    (dumped : dump request = .ok requestText)
    (known : later.get parts.interfaceName parts.method = .ok methodType)
    (put : PutIn (tryValue parts requestText methodType) passes) :
    getTry draws dump context later now path =
      .ok {
        content := tryTemplate.render (tryValue parts requestText methodType)
        contentType := "text/html".toList } := by
  have all : shownAfter (tryValue parts requestText methodType) passes =
      tryValue parts requestText methodType := by
    funext q
    exact if_pos (mem_passes q)
  apply getTry_of_filled parsed sampled dumped
  rw [fillTryHtml_eq known, put passes (List.prefix_refl _), all]

/-- The page is the template with every placeholder replaced by its own value, and no pass alters
a value, exactly when each pass spares the values put in before it. -/
theorem getTry_at_once_iff (parsed : parseDbusRequestPath path = .ok (some parts))
    (sampled : randRequest draws context parts.interfaceName parts.method now = .ok request)
    (dumped : dump request = .ok requestText)
    (known : later.get parts.interfaceName parts.method = .ok methodType) :
    (getTry draws dump context later now path =
        .ok {
          content := tryTemplate.render (tryValue parts requestText methodType)
          contentType := "text/html".toList } ∧
      PutIn (tryValue parts requestText methodType) passes) ↔
      passes.Pairwise fun earlier later =>
        later.text <:+: tryValue parts requestText methodType earlier →
          tryValue parts requestText methodType later = later.text := by
  rw [and_iff_right_of_imp (getTry_of_putIn parsed sampled dumped known)]
  exact putIn_iff _ passes

end Handler

/-! ### A page for one lamp -/

def lampDraws : Draws where
  bool _ := true
  pos _ := ⟨7, by decide⟩
  neg _ := ⟨-1, by decide⟩
  repeats _ := ⟨2, by decide⟩

def lampDump : Json → Except Str Str
  | .null => .ok "null".toList
  | _ => .error "not written here".toList

def lampRegistry : InterfaceContext :=
  InterfaceContext.addInterface {} (Interface.add { name := "a.Lamp".toList }
    ({ name := "Toggle".toList } : Method))

def lampValue (serviceName : Str) : Placeholder → Str :=
  tryValue ⟨serviceName, "/lamp".toList, "a.Lamp".toList, "Toggle".toList⟩ "null".toList
    { name := "Toggle".toList }

theorem getTry_at_once_lamp :
    getTry lampDraws lampDump lampRegistry lampRegistry 0 "a.desk/lamp/a.Lamp.Toggle".toList =
        .ok {
          content := tryTemplate.render (lampValue "a.desk".toList)
          contentType := "text/html".toList } ∧
      PutIn (lampValue "a.desk".toList) passes := by
  have parsed : parseDbusRequestPath "a.desk/lamp/a.Lamp.Toggle".toList =
      .ok (some ⟨"a.desk".toList, "/lamp".toList, "a.Lamp".toList, "Toggle".toList⟩) := rfl
  have sampled : randRequest lampDraws lampRegistry "a.Lamp".toList "Toggle".toList 0 =
      .ok .null := rfl
  exact (getTry_at_once_iff parsed sampled rfl rfl).mpr (by decide)

/-- The path of the object is put into the name of the service as well. -/
theorem getTry_alters_service :
    getTry lampDraws lampDump lampRegistry lampRegistry 0
        "$object_path$/lamp/a.Lamp.Toggle".toList ≠
      .ok {
        content := tryTemplate.render (lampValue "$object_path$".toList)
        contentType := "text/html".toList } := by
  have parsed : parseDbusRequestPath "$object_path$/lamp/a.Lamp.Toggle".toList =
      .ok (some ⟨"$object_path$".toList, "/lamp".toList, "a.Lamp".toList, "Toggle".toList⟩) := rfl
  have sampled : randRequest lampDraws lampRegistry "a.Lamp".toList "Toggle".toList 0 =
      .ok .null := rfl
  have known : lampRegistry.get "a.Lamp".toList "Toggle".toList =
      .ok ({ name := "Toggle".toList } : Method) := rfl
  have shorter : ∀ q ∈ passes,
      (passes.foldl (fun slot p => substitute p.text (lampValue "$object_path$".toList p) slot)
        q.text).length ≤ (lampValue "$object_path$".toList q).length := by decide
  rw [getTry_eq parsed sampled rfl known]
  intro same
  have pages := congrArg Response.content (Except.ok.inj same)
  obtain ⟨field, inside, service⟩ := exists_field .serviceName
  have slot := (Template.render_eq_iff_of_shorter fun field _ =>
    shorter field.1 (mem_passes field.1)).mp pages field inside
  rw [service] at slot
  revert slot
  decide

end Dbus2Http.WebService

import Dbus2Http.CxxRuntime
import Mathlib.Data.List.DropRight

set_option autoImplicit false

namespace Dbus2Http.WebService

open Cxx (Str Run find rfind substr substrFrom)

/-- What a request path names. -/
structure RequestPath where
  serviceName : Str
  objectPath : Str
  interfaceName : Str
  method : Str
deriving DecidableEq, Repr

/-- Nothing stands for `false`, upon which no caller looks at the parts again. -/
def parseDbusRequestPath (path : Str) : Run (Option RequestPath) :=
  match find path '/' with
  | none => .ok none
  | some firstSlash => do
      let serviceName ← substr path 0 firstSlash
      let rest ← substrFrom path (firstSlash + 1)
      match rfind rest '/' with
      | none => .ok none
      | some lastSlash => do
          let interfaceMethod ← substrFrom rest (lastSlash + 1)
          let beforeInterface ← substr rest 0 lastSlash
          match rfind interfaceMethod '.' with
          | none => .ok none
          | some lastDot => do
              let method ← substrFrom interfaceMethod (lastDot + 1)
              let interfaceName ← substr interfaceMethod 0 lastDot
              let objectPath := if beforeInterface = [] then ['/'] else '/' :: beforeInterface
              .ok (some ⟨serviceName, objectPath, interfaceName, method⟩)

/-- The path that the test page builds, after its prefix. -/
def buildPath (parts : RequestPath) : Str :=
  parts.serviceName ++ parts.objectPath ++ ['/'] ++ parts.interfaceName ++ ['.'] ++ parts.method

/-- What follows the last slash. -/
def lastSegment (path : Str) : Str := path.rtakeWhile (· != '/')

theorem lastSegment_cut (before : Str) {after : Str} (fresh : '/' ∉ after) :
    lastSegment (before ++ '/' :: after) = after := by
  have kept : ∀ c ∈ after.reverse, (c != '/') = true := by
    intro c inside
    rw [bne_iff_ne]
    rintro rfl
    exact fresh (List.mem_reverse.mp inside)
  rw [lastSegment, List.rtakeWhile, List.reverse_append, List.reverse_cons, List.append_assoc,
    List.takeWhile_append_of_pos kept]
  simp

/-- The two pieces around a cut. -/
theorem substr_cut (before : Str) (c : Char) (after : Str) :
    substr (before ++ c :: after) 0 before.length = .ok before ∧
      substrFrom (before ++ c :: after) (before.length + 1) = .ok after := by
  constructor
  · rw [Cxx.substr_eq_ok, List.drop_zero, List.take_left]
    exact ⟨Nat.zero_le _, rfl⟩
  · have cut : before ++ c :: after = (before ++ [c]) ++ after := by simp
    have length : before.length + 1 = (before ++ [c]).length := by simp
    rw [Cxx.substrFrom_eq_ok, cut, length, List.drop_left]
    exact ⟨(List.prefix_append _ _).length_le, rfl⟩

theorem parse_no_slash {path : Str} (missing : '/' ∉ path) : parseDbusRequestPath path = .ok none := by
  rw [parseDbusRequestPath, Cxx.find_none missing]

theorem parse_one_slash {service rest : Str} (first : '/' ∉ service) (missing : '/' ∉ rest) :
    parseDbusRequestPath (service ++ '/' :: rest) = .ok none := by
  obtain ⟨front, back⟩ := substr_cut service '/' rest
  simp only [parseDbusRequestPath, Cxx.find_cut first, front, back, Cxx.bind_ok,
    Cxx.rfind_none missing]

theorem parse_no_dot {service before last : Str} (first : '/' ∉ service) (final : '/' ∉ last)
    (missing : '.' ∉ last) :
    parseDbusRequestPath (service ++ '/' :: (before ++ '/' :: last)) = .ok none := by
  obtain ⟨front, back⟩ := substr_cut service '/' (before ++ '/' :: last)
  obtain ⟨middle, segment⟩ := substr_cut before '/' last
  simp only [parseDbusRequestPath, Cxx.find_cut first, front, back, Cxx.bind_ok,
    Cxx.rfind_cut before final, middle, segment, Cxx.rfind_none missing]

theorem parse_parts {service before interface method : Str} (first : '/' ∉ service)
    (final : '/' ∉ interface ++ '.' :: method) (dot : '.' ∉ method) :
    parseDbusRequestPath (service ++ '/' :: (before ++ '/' :: (interface ++ '.' :: method))) =
      .ok (some ⟨service, '/' :: before, interface, method⟩) := by
  obtain ⟨front, back⟩ := substr_cut service '/' (before ++ '/' :: (interface ++ '.' :: method))
  obtain ⟨middle, segment⟩ := substr_cut before '/' (interface ++ '.' :: method)
  obtain ⟨name, member⟩ := substr_cut interface '.' method
  have object : (if before = [] then ['/'] else '/' :: before) = '/' :: before := by
    by_cases root : before = []
    · rw [if_pos root, root]
    · rw [if_neg root]
  simp only [parseDbusRequestPath, Cxx.find_cut first, front, back, Cxx.bind_ok,
    Cxx.rfind_cut before final, middle, segment, Cxx.rfind_cut interface dot, name, member, object]

/-- Two slashes, and a dot after the last one. -/
def Complete (path : Str) : Prop := 2 ≤ path.count '/' ∧ '.' ∈ lastSegment path

theorem complete_parts {service before interface method : Str}
    (final : '/' ∉ interface ++ '.' :: method) :
    Complete (service ++ '/' :: (before ++ '/' :: (interface ++ '.' :: method))) := by
  have cut := lastSegment_cut (service ++ '/' :: before) final
  rw [List.append_assoc] at cut
  constructor
  · rw [List.count_append, List.count_cons_self, List.count_append, List.count_cons_self]
    omega
  · rw [show lastSegment (service ++ '/' :: (before ++ '/' :: (interface ++ '.' :: method))) = _
      from cut]
    simp

/-- A path is refused, or it is cut at its first slash, its last slash and the last dot
after that. -/
theorem parse_cases (path : Str) :
    (parseDbusRequestPath path = .ok none ∧ ¬ Complete path) ∨
    ∃ service before interface method,
      path = service ++ '/' :: (before ++ '/' :: (interface ++ '.' :: method)) ∧
      '/' ∉ service ∧ '/' ∉ interface ++ '.' :: method ∧ '.' ∉ method := by
  by_cases slash : '/' ∈ path
  · obtain ⟨service, rest, rfl, first⟩ := Cxx.exists_first_cut slash
    by_cases slash : '/' ∈ rest
    · obtain ⟨before, last, rfl, final⟩ := Cxx.exists_last_cut slash
      by_cases dot : '.' ∈ last
      · obtain ⟨interface, method, rfl, noDot⟩ := Cxx.exists_last_cut dot
        exact .inr ⟨service, before, interface, method, rfl, first, final, noDot⟩
      · refine .inl ⟨parse_no_dot first final dot, ?_⟩
        have cut := lastSegment_cut (service ++ '/' :: before) final
        rw [List.append_assoc] at cut
        intro complete
        exact dot (cut ▸ complete.2)
    · refine .inl ⟨parse_one_slash first slash, ?_⟩
      intro complete
      have count := complete.1
      rw [List.count_append, List.count_cons_self, List.count_eq_zero.mpr first,
        List.count_eq_zero.mpr slash] at count
      omega
  · refine .inl ⟨parse_no_slash slash, ?_⟩
    intro complete
    have count := complete.1
    rw [List.count_eq_zero.mpr slash] at count
    omega

theorem parse_eq_some_iff (path : Str) :
    (∃ parts, parseDbusRequestPath path = .ok (some parts)) ↔ Complete path := by
  rcases parse_cases path with ⟨refused, short⟩ | ⟨service, before, interface, method, rfl, first,
    final, dot⟩
  · simp [refused, short]
  · exact ⟨fun _ => complete_parts final, fun _ => ⟨_, parse_parts first final dot⟩⟩

theorem parse_eq_none {path : Str} (short : ¬ Complete path) :
    parseDbusRequestPath path = .ok none := by
  rcases parse_cases path with ⟨refused, _⟩ | ⟨service, before, interface, method, rfl, first,
    final, dot⟩
  · exact refused
  · exact absurd (complete_parts final) short

/-- The parts that a path is parsed to. -/
structure RequestPath.Parsed (parts : RequestPath) : Prop where
  service : '/' ∉ parts.serviceName
  interface : '/' ∉ parts.interfaceName
  member : '/' ∉ parts.method
  noDot : '.' ∉ parts.method
  object : parts.objectPath.head? = some '/'

theorem parse_sound {path : Str} {parts : RequestPath}
    (parsed : parseDbusRequestPath path = .ok (some parts)) :
    parts.Parsed ∧ buildPath parts = path := by
  rcases parse_cases path with ⟨refused, _⟩ | ⟨service, before, interface, method, rfl, first,
    final, dot⟩
  · rw [refused] at parsed
    cases parsed
  · rw [parse_parts first final dot] at parsed
    cases parsed
    constructor
    · refine ⟨first, ?_, ?_, dot, rfl⟩
      · exact fun inside => final (List.mem_append_left _ inside)
      · exact fun inside => final (List.mem_append_right _ (List.mem_cons_of_mem _ inside))
    · simp [buildPath]

theorem parse_buildPath {parts : RequestPath} (good : parts.Parsed) :
    parseDbusRequestPath (buildPath parts) = .ok (some parts) := by
  obtain ⟨service, object, interface, method⟩ := parts
  obtain ⟨first, name, member, dot, root⟩ := good
  obtain ⟨before, rfl⟩ : ∃ before, object = '/' :: before := by
    cases object with
    | nil => contradiction
    | cons c before => exact ⟨before, by rw [Option.some.inj root]⟩
  have final : '/' ∉ interface ++ '.' :: method := by
    simp only [List.mem_append, List.mem_cons, not_or]
    exact ⟨name, by decide, member⟩
  have built : buildPath ⟨service, '/' :: before, interface, method⟩ =
      service ++ '/' :: (before ++ '/' :: (interface ++ '.' :: method)) := by
    simp [buildPath]
  rw [built]
  exact parse_parts first final dot

/-- A path parses exactly when it is complete; the parts then build the path again, and
every path built of such parts parses to them. -/
theorem parseDbusRequestPath_inverse :
    (∀ path, (∃ parts, parseDbusRequestPath path = .ok (some parts)) ↔ Complete path) ∧
    (∀ path, ¬ Complete path → parseDbusRequestPath path = .ok none) ∧
    (∀ path parts, parseDbusRequestPath path = .ok (some parts) →
      parts.Parsed ∧ buildPath parts = path) ∧
    ∀ parts : RequestPath, parts.Parsed → parseDbusRequestPath (buildPath parts) = .ok (some parts) :=
  ⟨parse_eq_some_iff, fun _ => parse_eq_none, fun _ _ => parse_sound, fun _ => parse_buildPath⟩

/-- The object at the root gives a double slash. -/
theorem parse_root_object :
    parseDbusRequestPath "org.freedesktop.DBus//org.freedesktop.DBus.Peer.Ping".toList = .ok (some
      ⟨"org.freedesktop.DBus".toList, "/".toList, "org.freedesktop.DBus.Peer".toList,
        "Ping".toList⟩) :=
  parseDbusRequestPath_inverse.2.2.2
    ⟨"org.freedesktop.DBus".toList, "/".toList, "org.freedesktop.DBus.Peer".toList, "Ping".toList⟩
    ⟨by decide, by decide, by decide, by decide, rfl⟩

end Dbus2Http.WebService

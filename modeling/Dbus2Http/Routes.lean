import Dbus2Http.CxxRuntime
import Dbus2Http.FirstMatch

set_option autoImplicit false

namespace Dbus2Http.WebService

open Cxx (Str)
open FirstMatch (Before Rivals dispatch)

/-! ### The patterns -/

/-- A pattern is a path, or a path followed by `(.*)`. -/
inductive Pattern
  | exact (text : Str)
  | rest (start : Str)

/-- What a handler gets as the group of its pattern; the dot does not match the end of a line. -/
def Pattern.match? : Pattern → Str → Option Str
  | .exact text, path => if path = text then some [] else none
  | .rest start, path =>
      if start <+: path ∧ (path.drop start.length).all (fun c => c ∉ ['\n', '\r']) = true then
        some (path.drop start.length)
      else none

/-- The handlers of GET requests. -/
inductive Route
  | services | html | interfaceHtml | interface | service | tryCall | matchrule
deriving DecidableEq, Repr

def Route.pattern : Route → Pattern
  | .services => .exact "/dbus/service".toList
  | .html => .exact "/dbus/html".toList
  | .interfaceHtml => .rest "/dbus/interface/html/".toList
  | .interface => .rest "/dbus/interface/".toList
  | .service => .rest "/dbus/service/".toList
  | .tryCall => .rest "/dbus/try/".toList
  | .matchrule => .rest "/dbus/matchrule".toList

def Route.match? (route : Route) (path : Str) : Option Str := route.pattern.match? path

/-- In the order in which they are registered. -/
def getRoutes : List Route :=
  [.services, .html, .interfaceHtml, .interface, .service, .tryCall, .matchrule]

/-- The handler that a server with these routes chooses, and the group of its pattern. -/
def routeGet (table : List Route) (path : Str) : Option (Route × Str) :=
  dispatch Route.match? table path

/-! ### Which patterns match the same path -/

def Pattern.overlaps : Pattern → Pattern → Bool
  | .exact text, .exact other => text = other
  | .exact text, .rest start => start.isPrefixOf text
  | .rest start, .exact text => start.isPrefixOf text
  | .rest start, .rest other => start.isPrefixOf other || other.isPrefixOf start

section Patterns

theorem match?_exact {text path : Str} : ((Pattern.exact text).match? path).isSome ↔ path = text := by
  rw [Pattern.match?]
  split_ifs with same <;> simp [same]

theorem prefix_of_match? {start path : Str} (matched : ((Pattern.rest start).match? path).isSome) :
    start <+: path := by
  rw [Pattern.match?] at matched
  split_ifs at matched with both
  · exact both.1
  · cases matched

theorem match?_rest {start suffix : Str} (unbroken : ∀ c ∈ suffix, c ∉ ['\n', '\r']) :
    (Pattern.rest start).match? (start ++ suffix) = some suffix := by
  have all : suffix.all (fun c => c ∉ ['\n', '\r']) = true :=
    List.all_eq_true.mpr fun c inside => decide_eq_true (unbroken c inside)
  rw [Pattern.match?, List.drop_left, if_pos ⟨List.prefix_append _ _, all⟩]

/-- The group of a pattern stands behind the start, in one line. -/
theorem match?_rest_eq_some {start path suffix : Str}
    (matched : (Pattern.rest start).match? path = some suffix) :
    path = start ++ suffix ∧ ∀ c ∈ suffix, c ∉ ['\n', '\r'] := by
  rw [Pattern.match?] at matched
  split_ifs at matched with both
  obtain ⟨rest, rfl⟩ := both.1
  obtain rfl := Option.some.inj matched
  rw [List.drop_left]
  refine ⟨rfl, fun c inside => ?_⟩
  rw [List.drop_left] at both
  exact of_decide_eq_true (List.all_eq_true.mp both.2 c inside)

theorem overlaps_of_match? {pattern other : Pattern} {path : Str} (matched : (pattern.match? path).isSome)
    (matched' : (other.match? path).isSome) : pattern.overlaps other = true := by
  cases pattern with
  | exact text =>
      have here := match?_exact.mp matched
      cases other with
      | exact text' => exact decide_eq_true (here.symm.trans (match?_exact.mp matched'))
      | rest start => exact List.isPrefixOf_iff_prefix.mpr (here ▸ prefix_of_match? matched')
  | rest start =>
      have starts := prefix_of_match? matched
      cases other with
      | exact text => exact List.isPrefixOf_iff_prefix.mpr (match?_exact.mp matched' ▸ starts)
      | rest start' =>
          rw [Pattern.overlaps, Bool.or_eq_true, List.isPrefixOf_iff_prefix, List.isPrefixOf_iff_prefix]
          exact List.prefix_or_prefix_of_prefix starts (prefix_of_match? matched')

end Patterns

/-! ### The order of the routes -/

section Table

theorem getRoutes_nodup : getRoutes.Nodup := by decide

theorem mem_getRoutes (route : Route) : route ∈ getRoutes := by
  cases route <;> decide

/-- The only two routes that match a common path are those of the two forms of an interface. -/
theorem rivals_cases {route other : Route}
    (rivals : Rivals Route.match? route other) : route = other ∨
      (route = .interfaceHtml ∧ other = .interface) ∨ (route = .interface ∧ other = .interfaceHtml) := by
  have all : ∀ route ∈ getRoutes, ∀ other ∈ getRoutes, route.pattern.overlaps other.pattern = true →
      route = other ∨ (route = .interfaceHtml ∧ other = .interface) ∨
        (route = .interface ∧ other = .interfaceHtml) := by decide
  obtain ⟨path, matched, matched'⟩ := rivals
  exact all route (mem_getRoutes route) other (mem_getRoutes other) (overlaps_of_match? matched matched')

theorem html_before : Before getRoutes .interfaceHtml .interface := by
  have inside : getRoutes = [.services, .html] ++ [.interfaceHtml, .interface] ++
      [.service, .tryCall, .matchrule] := rfl
  rw [Before, inside]
  exact (List.sublist_append_right _ _).trans (List.sublist_append_left _ _)

variable {table : List Route}

/-- However else the routes are ordered, a path that only its own pattern matches is served by it. -/
theorem routeGet_of_rest (perm : getRoutes.Perm table) (order : Before table .interfaceHtml .interface)
    {route : Route} (other : route ≠ .interface) {start suffix : Str}
    (pattern : route.pattern = .rest start) (unbroken : ∀ c ∈ suffix, c ∉ ['\n', '\r']) :
    routeGet table (start ++ suffix) = some (route, suffix) := by
  have matched : route.match? (start ++ suffix) = some suffix := by
    rw [Route.match?, pattern, match?_rest unbroken]
  refine (FirstMatch.dispatch_eq_some (perm.nodup_iff.mp getRoutes_nodup)).mpr
    ⟨perm.mem_iff.mp (mem_getRoutes route), matched, fun rival _ different some => ?_⟩
  have rivals : Rivals Route.match? route rival := ⟨_, by rw [matched]; rfl, some⟩
  rcases rivals_cases rivals with same | ⟨rfl, rfl⟩ | ⟨rfl, rfl⟩
  · exact absurd same.symm different
  · exact order
  · exact absurd rfl other

/-- What a handler gets fits its pattern. -/
theorem match?_of_routeGet {path group : Str} {route : Route}
    (routed : routeGet getRoutes path = some (route, group)) : route.match? path = some group :=
  ((FirstMatch.dispatch_eq_some getRoutes_nodup).mp routed).2.1

/-- A name without a slash is not taken for that of a page. -/
theorem routeGet_interface {suffix : Str} (plain : '/' ∉ suffix)
    (unbroken : ∀ c ∈ suffix, c ∉ ['\n', '\r']) :
    routeGet getRoutes ("/dbus/interface/".toList ++ suffix) = some (.interface, suffix) := by
  have matched : Route.interface.match? ("/dbus/interface/".toList ++ suffix) = some suffix :=
    match?_rest unbroken
  refine (FirstMatch.dispatch_eq_some getRoutes_nodup).mpr
    ⟨mem_getRoutes _, matched, fun rival _ different some => ?_⟩
  rcases rivals_cases ⟨_, by rw [matched]; rfl, some⟩ with same | ⟨impossible, -⟩ | ⟨-, rfl⟩
  · exact absurd same.symm different
  · cases impossible
  · have starts : "/dbus/interface/".toList ++ "html/".toList <+: "/dbus/interface/".toList ++ suffix :=
      prefix_of_match? some
    have inside := (List.prefix_append_right_inj _).mp starts
    exact absurd (inside.subset (by decide)) plain

end Table

end Dbus2Http.WebService

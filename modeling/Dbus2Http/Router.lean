import Dbus2Http.Routes
import Dbus2Http.SignalLinks
import Dbus2Http.TryCalls

set_option autoImplicit false

namespace Dbus2Http.WebService

open Cxx (Str)
open Dbus2Html (Name requested interfaceAddress matchRuleAddress tryHref)
open FirstMatch (Before)

/-! ### The order of the routes -/

def turnedRoutes : List Route :=
  [.matchrule, .tryCall, .service, .interfaceHtml, .interface, .html, .services]

/-- The routes may be registered in any order in which the page of an interface comes before its JSON
form; in every other order some path is served by another handler. -/
theorem route_order_iff {table : List Route} (perm : getRoutes.Perm table) :
    (∀ path, routeGet table path = routeGet getRoutes path) ↔
      Before table .interfaceHtml .interface := by
  constructor
  · intro alike
    have answered : routeGet table "/dbus/interface/html/x".toList = some (.interfaceHtml, "x".toList) := by
      rw [alike]
      rfl
    have rival : (Route.interface.match? "/dbus/interface/html/x".toList).isSome := by decide
    exact FirstMatch.before_of_dispatch (perm.nodup_iff.mp getRoutes_nodup) answered
      (perm.mem_iff.mp (mem_getRoutes .interface)) (by decide) rival
  · intro order
    refine congrFun (FirstMatch.dispatch_eq_of_order getRoutes_nodup perm ?_)
    intro route other rivals before
    rcases rivals_cases rivals with rfl | ⟨rfl, rfl⟩ | ⟨rfl, rfl⟩
    · exact absurd before (before.asymm getRoutes_nodup)
    · exact order
    · exact absurd before (html_before.asymm getRoutes_nodup)

def swappedRoutes : List Route :=
  [.services, .html, .interface, .interfaceHtml, .service, .tryCall, .matchrule]

/-- Registered after the JSON form, the page of an interface is not served. -/
theorem route_swapped : ¬ ∀ path, routeGet swappedRoutes path = routeGet getRoutes path := by
  have perm : getRoutes.Perm swappedRoutes := by decide
  have order : Before swappedRoutes .interface .interfaceHtml :=
    .cons _ (.cons _ (FirstMatch.before_head List.mem_cons_self))
  exact fun alike => order.asymm (by decide) ((route_order_iff perm).mp alike)

end Dbus2Http.WebService

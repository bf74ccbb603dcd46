import Dbus2Http.ScanTermination
import Dbus2Http.UpdateThread

set_option autoImplicit false

namespace Cxx

/-! ### Loops that skip what is known -/

section Once

variable {σ ι : Type} [BEq ι]

/-- One round: what is known is passed over. -/
def unlessKnown (known : σ → ι → Bool) (act : σ → ι → Run σ) (state : σ) (x : ι) : Run σ :=
  if known state x then .ok state else act state x

/-- When acting on something makes just that known, a loop acts once on each that was unknown
before, in the order in which they first come. -/
theorem foldlM_unlessKnown {I : σ → Prop} {known : σ → ι → Bool} {act : σ → ι → Run σ}
    (acted : ∀ {s s' : σ} {x : ι}, I s → known s x = false → act s x = .ok s' →
      I s' ∧ ∀ y, known s' y = (known s y || y == x))
    (xs : List ι) {s : σ} (holds : I s) :
    xs.foldlM (unlessKnown known act) s =
      ((xs.filter fun x => !known s x).eraseDups).foldlM act s := by
  induction xs generalizing s with
  | nil => rfl
  | cons x xs ih =>
      rw [List.foldlM_cons, unlessKnown, List.filter_cons]
      cases before : known s x with
      | true => exact ih holds
      | false =>
          simp only [Bool.false_eq_true, ↓reduceIte, Bool.not_false]
          rw [List.eraseDups_cons, List.foldlM_cons, List.filter_filter]
          cases done : act s x with
          | error fault => rfl
          | ok s' =>
              obtain ⟨holds', knows⟩ := acted holds before done
              have rest : (xs.filter fun y => !known s' y) = xs.filter fun y => !(y == x) && !known s y :=
                List.filter_congr fun y _ => by rw [knows, Bool.not_or, Bool.and_comm]
              rw [Cxx.bind_ok, Cxx.bind_ok, ih holds', rest]

end Once

end Cxx

namespace Dbus2Http.UpdateThread

open Cxx (Str Run)
open DbusEnumerator

/-! ### The whole life of the update thread -/

/-- The prefixes of a proxy: those it is started with and two that are always there. -/
def configuredPrefixes (servicePrefix : List Str) : List Str :=
  servicePrefix ++ ["org.freedesktop.DBus".toList, "com.example.ServiceName".toList]

section Runs

variable {bus : Bus} {servicePrefixes : List Str} {fuel : Nat}

/-- A whole scan of one service. -/
def scanService (bus : Bus) (fuel : Nat) (scan : Scan) (serviceName : Str) : Run Scan := do
  let (_, scanned) ← parseObjectPathsRecursively bus serviceName fuel "/".toList scan
  return scanned

/-- A service that needs no scan. -/
def passedOver (servicePrefixes : List Str) (scan : Scan) (serviceName : Str) : Bool :=
  !matchPrefix servicePrefixes serviceName || scan.context.containsService serviceName

/-- The services among the listed ones that match and are not known, each at its first place. -/
def newServices (servicePrefixes : List Str) (context : InterfaceContext)
    (listings : List (Option (List Str))) : List Str :=
  ((listings.flatMap listServices).filter fun service =>
    matchPrefix servicePrefixes service && !context.containsService service).eraseDups

theorem updateService_eq :
    updateService bus servicePrefixes fuel =
      Cxx.unlessKnown (passedOver servicePrefixes) (scanService bus fuel) := by
  funext scan service
  rw [updateService, Cxx.unlessKnown, passedOver]
  cases matchPrefix servicePrefixes service with
  | false => rfl
  | true =>
      cases scan.context.containsService service with
      | true => rfl
      | false => rfl

/-- What one scan adds: a block of introspections of its own service, from the root on. -/
structure ScannedIn (service : Str) (block : List Introspection) : Prop where
  root : (block.head?.map Introspection.path) = some "/".toList
  own : ∀ call ∈ block, call.service = service

theorem scanService_asks {before after : Scan} {service : Str}
    (done : scanService bus fuel before service = .ok after) :
    ∃ block, after.asked = before.asked ++ block ∧ ScannedIn service block := by
  rw [scanService, Cxx.bind_eq_ok] at done
  obtain ⟨⟨objects, scanned⟩, scan, returned⟩ := done
  cases returned
  have own : ∃ block, after.asked = before.asked ++ block ∧ ∀ call ∈ block, call.service = service := by
    refine scan_preserves (P := fun scan : Scan => ∃ block, scan.asked = before.asked ++ block ∧
      ∀ call ∈ block, call.service = service) (Q := fun _ => True) (fun _ _ => id) ?_ trivial scan
      ⟨[], (List.append_nil _).symm, by simp⟩
    rintro path earlier object later _ visited ⟨block, asked, mine⟩
    obtain ⟨-, made⟩ := visit_eq_ok.mp visited
    cases made
    refine ⟨_, by rw [asked, List.append_assoc], ?_⟩
    intro call inside
    rcases List.mem_append.mp inside with old | new
    · exact mine call old
    · rw [List.mem_singleton.mp new]
  obtain ⟨block, asked, mine⟩ := own
  obtain ⟨rest, first⟩ := scan_asks scan
  rw [asked, List.append_assoc] at first
  have shape := List.append_cancel_left first
  exact ⟨block, asked, by rw [← shape]; rfl, mine⟩

theorem Replayed.scanService {before after : Scan} {service : Str} (replayed : Replayed bus before)
    (done : scanService bus fuel before service = .ok after) : Replayed bus after := by
  rw [UpdateThread.scanService, Cxx.bind_eq_ok] at done
  obtain ⟨⟨objects, scanned⟩, scan, returned⟩ := done
  cases returned
  exact DbusEnumerator.Replayed.scan replayed scan

/-- A scan makes its own service known and no other. -/
theorem scanService_contains {before after : Scan} {service : Str} (replayed : Replayed bus before)
    (done : scanService bus fuel before service = .ok after) (other : Str) :
    after.context.containsService other = (before.context.containsService other || other == service) := by
  obtain ⟨block, asked, scanned⟩ := scanService_asks done
  have after_eq : after.context = block.foldl (recorded bus.rootElement) before.context := by
    rw [Replayed.scanService replayed done, asked, List.foldl_append, ← replayed]
  rw [after_eq, Bool.eq_iff_iff, containsService_replay, Bool.or_eq_true, beq_iff_eq, or_comm]
  refine or_congr_right ⟨?_, ?_⟩
  · rintro ⟨call, inside, same⟩
    exact same.symm.trans (scanned.own call inside)
  · rintro rfl
    cases block with
    | nil => cases scanned.root
    | cons call rest => exact ⟨call, List.mem_cons_self, scanned.own call List.mem_cons_self⟩

/-- Scans of several services add a block for each. -/
theorem scans_ask {services : List Str} {before after : Scan}
    (done : services.foldlM (scanService bus fuel) before = .ok after) :
    ∃ blocks, after.asked = before.asked ++ blocks.flatten ∧ List.Forall₂ ScannedIn services blocks := by
  induction services generalizing before with
  | nil =>
      cases done
      exact ⟨[], (List.append_nil _).symm, .nil⟩
  | cons service rest ih =>
      rw [List.foldlM_cons, Cxx.bind_eq_ok] at done
      obtain ⟨middle, first, others⟩ := done
      obtain ⟨block, asked, scanned⟩ := scanService_asks first
      obtain ⟨blocks, later, each⟩ := ih others
      refine ⟨block :: blocks, ?_, .cons scanned each⟩
      rw [later, asked, List.flatten_cons, List.append_assoc]

theorem Replayed.scans {services : List Str} {before after : Scan} (replayed : Replayed bus before)
    (done : services.foldlM (UpdateThread.scanService bus fuel) before = .ok after) :
    Replayed bus after :=
  Cxx.foldlM_preserves (fun _ _ _ _ round kept => Replayed.scanService kept round) done replayed

theorem scans_contain {services : List Str} {before after : Scan} (replayed : Replayed bus before)
    (done : services.foldlM (scanService bus fuel) before = .ok after) (other : Str) :
    after.context.containsService other = true ↔
      before.context.containsService other = true ∨ other ∈ services := by
  induction services generalizing before with
  | nil =>
      cases done
      simp
  | cons service rest ih =>
      rw [List.foldlM_cons, Cxx.bind_eq_ok] at done
      obtain ⟨middle, first, others⟩ := done
      rw [ih (Replayed.scanService replayed first) others, scanService_contains replayed first,
        Bool.or_eq_true, beq_iff_eq, List.mem_cons, or_assoc]

/-- From any registry on, updates are scans of what is new, one after the other. -/
theorem updates_from_once (listings : List (Option (List Str))) {scan : Scan}
    (replayed : Replayed bus scan) :
    listings.foldlM (update bus servicePrefixes fuel) scan =
      (newServices servicePrefixes scan.context listings).foldlM (scanService bus fuel) scan := by
  rw [updates_from_eq, updateService_eq, Cxx.foldlM_unlessKnown (I := Replayed bus) _ _ replayed,
    newServices]
  · have same : (fun service => !passedOver servicePrefixes scan service) = fun service =>
        matchPrefix servicePrefixes service && !scan.context.containsService service := by
      funext service
      rw [passedOver, Bool.not_or, Bool.not_not]
    rw [same]
  · intro s s' x holds _ done
    refine ⟨Replayed.scanService holds done, fun y => ?_⟩
    rw [passedOver, passedOver, scanService_contains holds done, Bool.or_assoc]

theorem mem_newServices {context : InterfaceContext} {listings : List (Option (List Str))} {service : Str} :
    service ∈ newServices servicePrefixes context listings ↔
      (∃ names ∈ listings, service ∈ listServices names) ∧
        matchPrefix servicePrefixes service = true ∧ context.containsService service = false := by
  rw [newServices, List.mem_eraseDups, List.mem_filter, List.mem_flatMap, Bool.and_eq_true,
    Bool.not_eq_true']

end Runs

/-- Over its whole life the update thread scans each service that is listed at some time and matches
just once, in the order of the first listings, and each scan is one block of introspections of that
service from its root on. What it knows then are these services, and of a service it knows it never
asks again: later updates leave its objects as they are. -/
theorem updates_scan_once (bus : Bus) (servicePrefixes : List Str) (fuel : Nat)
    (earlier later : List (Option (List Str))) :
    updates bus servicePrefixes fuel earlier =
      (newServices servicePrefixes {} earlier).foldlM (scanService bus fuel) {} ∧
    ∀ middle after, updates bus servicePrefixes fuel earlier = .ok middle →
      updates bus servicePrefixes fuel (earlier ++ later) = .ok after →
      (∀ service, middle.context.containsService service = true ↔
        (∃ names ∈ earlier, service ∈ listServices names) ∧
          matchPrefix servicePrefixes service = true) ∧
      (∃ blocks, after.asked = middle.asked ++ blocks.flatten ∧
        List.Forall₂ ScannedIn (newServices servicePrefixes middle.context later) blocks) ∧
      ∀ service, middle.context.containsService service = true →
        after.context.objectPaths.find? service = middle.context.objectPaths.find? service := by
  have once : updates bus servicePrefixes fuel earlier =
      (newServices servicePrefixes {} earlier).foldlM (scanService bus fuel) {} :=
    updates_from_once earlier (Replayed.start bus)
  refine ⟨once, fun middle after first both => ?_⟩
  rw [updates, List.foldlM_append, Cxx.bind_eq_ok] at both
  obtain ⟨between, again, second⟩ := both
  obtain rfl : middle = between := Except.ok.inj (first.symm.trans again)
  rw [once] at first
  have replayed := Replayed.scans (Replayed.start bus) first
  rw [updates_from_once later replayed] at second
  obtain ⟨blocks, asked, each⟩ := scans_ask second
  refine ⟨fun service => ?_, ⟨blocks, asked, each⟩, fun service known => ?_⟩
  · have none : InterfaceContext.containsService {} service = false := rfl
    rw [scans_contain (Replayed.start bus) first, mem_newServices]
    simp [none]
  · have after_eq : after.context = blocks.flatten.foldl (recorded bus.rootElement) middle.context := by
      rw [Replayed.scans replayed second, asked, List.foldl_append, ← replayed]
    rw [after_eq]
    refine objectPaths_replay_of_ne _ _ _ fun call inside => ?_
    obtain ⟨block, member, here⟩ := List.mem_flatten.mp inside
    obtain ⟨i, inRange, rfl⟩ := List.mem_iff_getElem.mp member
    have length := each.length_eq
    have scanned := List.Forall₂.get each (by omega) inRange
    have new := List.getElem_mem (by omega : i < (newServices servicePrefixes middle.context later).length)
    rw [mem_newServices] at new
    rw [scanned.own call here]
    rintro rfl
    rw [List.get_eq_getElem] at known
    rw [known] at new
    exact absurd new.2.2 (by simp)

/-! ### Two updates -/

/-- Nothing is found below the root of any service. -/
def quietBus : Bus := rootOnly "<node/>".toList (.mk "node".toList [] [])

def firstListing : Option (List Str) := some ["a.desk".toList, ":1.7".toList, "b.secret".toList]

def secondListing : Option (List Str) := some ["a.lamp".toList, "a.desk".toList, "a.lamp".toList]

def rootOf (service : String) : Introspection := ⟨service.toList, "/".toList, "<node/>".toList⟩

theorem updates_scan_once_two : ∃ middle after,
    updates quietBus (configuredPrefixes ["a.".toList]) 1 [firstListing] = .ok middle ∧
      updates quietBus (configuredPrefixes ["a.".toList]) 1 [firstListing, secondListing] = .ok after ∧
      middle.asked = [rootOf "a.desk"] ∧ after.asked = [rootOf "a.desk", rootOf "a.lamp"] ∧
      after.context.objectPaths.find? "a.desk".toList =
        middle.context.objectPaths.find? "a.desk".toList := by
  have both := (updates_scan_once quietBus (configuredPrefixes ["a.".toList]) 1 [firstListing]
    [secondListing]).2 _ _ rfl rfl
  exact ⟨_, _, rfl, rfl, rfl, rfl, both.2.2 "a.desk".toList rfl⟩

end Dbus2Http.UpdateThread

import Dbus2Http.DbusEnumerator
import Mathlib.Data.List.Find

set_option autoImplicit false

namespace Dbus2Http.UpdateThread

open Cxx (Str Run)
open DbusSerialization DbusEnumerator

/-- The names `ListNames` gives, without the unique names of connections; none when it fails. -/
def listServices : Option (List Str) → List Str
  | some names => names.filter fun s => ¬ (s ≠ [] ∧ Cxx.rfindText s ":1".toList 0 = some 0)
  | none => []

def matchPrefix (servicePrefixes : List Str) (serviceName : Str) : Bool :=
  if servicePrefixes = [] then true
  else servicePrefixes.any fun start => Cxx.rfindText serviceName start 0 = some 0

section Update

variable (bus : Bus) (servicePrefixes : List Str) (fuel : Nat)

/-- The loop body of `update`. A service found in the registry is not scanned again. -/
def updateService (scan : Scan) (serviceName : Str) : Run Scan :=
  if ¬ matchPrefix servicePrefixes serviceName then .ok scan
  else if scan.context.containsService serviceName then .ok scan
  else do
    let (_, scanned) ← parseObjectPathsRecursively bus serviceName fuel "/".toList scan
    return scanned

def update (scan : Scan) (names : Option (List Str)) : Run Scan :=
  (listServices names).foldlM (updateService bus servicePrefixes fuel) scan

/-- The update thread: one `update` after another, each with its own listing. -/
def updates (listings : List (Option (List Str))) : Run Scan :=
  listings.foldlM (update bus servicePrefixes fuel) {}

end Update

variable {bus : Bus} {servicePrefixes : List Str} {fuel : Nat}

/-- A service is left alone, or it was unknown, matches and is scanned. -/
theorem updateService_cases {before after : Scan} {service : Str}
    (done : updateService bus servicePrefixes fuel before service = .ok after) :
    (after = before ∧ (matchPrefix servicePrefixes service = true →
        before.context.containsService service = true)) ∨
      matchPrefix servicePrefixes service = true ∧
        before.context.containsService service = false ∧
        ∃ objects, parseObjectPathsRecursively bus service fuel "/".toList before =
          .ok (objects, after) := by
  rw [updateService] at done
  by_cases matched : matchPrefix servicePrefixes service = true
  · rw [if_neg (not_not.mpr matched)] at done
    by_cases known : before.context.containsService service = true
    · rw [if_pos known] at done
      cases done
      exact Or.inl ⟨rfl, fun _ => known⟩
    · rw [if_neg known, Cxx.bind_eq_ok] at done
      obtain ⟨⟨objects, scanned⟩, scan, returned⟩ := done
      cases returned
      exact Or.inr ⟨matched, by simpa using known, objects, scan⟩
  · rw [if_pos matched] at done
    cases done
    exact Or.inl ⟨rfl, fun hit => absurd hit matched⟩

/-- What the update thread keeps true: the registry is what was introspected, every path asked
begins with a slash, and of every service asked the root was asked. -/
structure Kept (bus : Bus) (scan : Scan) : Prop where
  replayed : Replayed bus scan
  rooted : ∀ call ∈ scan.asked, "/".toList <+: call.path
  rootAsked : ∀ call ∈ scan.asked,
    ∃ root ∈ scan.asked, root.service = call.service ∧ root.path = "/".toList

theorem Kept.start (bus : Bus) : Kept bus {} := ⟨.start bus, by simp, by simp⟩

theorem Kept.updateService {before after : Scan} {service : Str} (kept : Kept bus before)
    (done : updateService bus servicePrefixes fuel before service = .ok after) :
    Kept bus after := by
  rcases updateService_cases done with ⟨same, -⟩ | ⟨-, -, objects, scanned⟩
  · exact same ▸ kept
  · refine ⟨kept.replayed.scan scanned, ?_, ?_⟩
    · intro call asked
      rcases scan_calls scanned asked with old | ⟨-, rooted⟩
      · exact kept.rooted call old
      · exact rooted
    · intro call asked
      rcases scan_calls scanned asked with old | ⟨ofService, -⟩
      · obtain ⟨root, inside, isRoot⟩ := kept.rootAsked call old
        exact ⟨root, (scan_grows scanned).subset inside, isRoot⟩
      · exact ⟨_, scan_asks_start scanned, ofService.symm, rfl⟩

theorem updateService_asks {before after : Scan} {service : Str}
    (done : updateService bus servicePrefixes fuel before service = .ok after) :
    before.asked <+: after.asked := by
  rcases updateService_cases done with ⟨same, -⟩ | ⟨-, -, objects, scanned⟩
  · exact same ▸ List.prefix_refl _
  · exact scan_grows scanned

/-- After its turn in an update a matching service is in the registry. -/
theorem updateService_contains {before after : Scan} {service : Str} (kept : Kept bus before)
    (done : updateService bus servicePrefixes fuel before service = .ok after)
    (matched : matchPrefix servicePrefixes service = true) :
    after.context.containsService service = true := by
  rcases updateService_cases done with ⟨same, known⟩ | ⟨-, -, objects, scanned⟩
  · exact same ▸ known matched
  · rw [kept.replayed.scan scanned, containsService_replay]
    exact Or.inl ⟨_, scan_asks_start scanned, rfl⟩

/-! ### Whole updates -/

/-- A run of updates goes through the listed services one after another. -/
theorem updates_from_eq (listings : List (Option (List Str))) (scan : Scan) :
    listings.foldlM (update bus servicePrefixes fuel) scan =
      (listings.flatMap listServices).foldlM (updateService bus servicePrefixes fuel) scan := by
  induction listings generalizing scan with
  | nil => rfl
  | cons names rest ih =>
      rw [List.foldlM_cons, List.flatMap_cons, List.foldlM_append]
      exact bind_congr ih

theorem updates_eq (listings : List (Option (List Str))) :
    updates bus servicePrefixes fuel listings =
      (listings.flatMap listServices).foldlM (updateService bus servicePrefixes fuel) {} :=
  updates_from_eq listings {}

theorem Kept.services {services : List Str} {before after : Scan} (kept : Kept bus before)
    (done : services.foldlM (UpdateThread.updateService bus servicePrefixes fuel) before =
      .ok after) : Kept bus after :=
  Cxx.foldlM_preserves (fun _ _ _ _ round kept => kept.updateService round) done kept

theorem services_ask {services : List Str} {before after : Scan}
    (done : services.foldlM (updateService bus servicePrefixes fuel) before = .ok after) :
    before.asked <+: after.asked :=
  Cxx.foldlM_preserves (P := fun scan : Scan => before.asked <+: scan.asked)
    (fun _ _ _ _ round older => older.trans (updateService_asks round)) done (List.prefix_refl _)

theorem updates_kept {listings : List (Option (List Str))} {after : Scan}
    (done : updates bus servicePrefixes fuel listings = .ok after) : Kept bus after :=
  (Kept.start bus).services (updates_eq listings ▸ done)

theorem matchPrefix_iff {service : Str} :
    matchPrefix servicePrefixes service = true ↔
      servicePrefixes = [] ∨ ∃ start ∈ servicePrefixes, start <+: service := by
  rw [matchPrefix]
  by_cases none : servicePrefixes = []
  · simp [none]
  · simp [none, Cxx.rfindText_zero]

/-- The update thread itself asks and registers only services that match. -/
theorem updates_match {listings : List (Option (List Str))} {after : Scan}
    (done : updates bus servicePrefixes fuel listings = .ok after) :
    (∀ call ∈ after.asked, matchPrefix servicePrefixes call.service = true) ∧
      ∀ service, after.context.containsService service = true →
        matchPrefix servicePrefixes service = true := by
  have asked : ∀ call ∈ after.asked, matchPrefix servicePrefixes call.service = true := by
    rw [updates_eq] at done
    refine Cxx.foldlM_preserves
      (P := fun scan : Scan => ∀ call ∈ scan.asked, matchPrefix servicePrefixes call.service = true)
      ?_ done (by simp)
    intro service _ before next round known call asked
    rcases updateService_cases round with ⟨same, -⟩ | ⟨matched, -, objects, scanned⟩
    · exact known call (same ▸ asked)
    · rcases scan_calls scanned asked with old | ⟨ofService, -⟩
      · exact known call old
      · exact ofService ▸ matched
  refine ⟨asked, fun service registered => ?_⟩
  rw [(updates_kept done).replayed, containsService_replay] at registered
  rcases registered with ⟨call, inside, ofService⟩ | absent
  · exact ofService ▸ asked call inside
  · cases absent

theorem update_contains {names : Option (List Str)} {before after : Scan} {service : Str}
    (kept : Kept bus before) (done : update bus servicePrefixes fuel before names = .ok after)
    (listed : service ∈ listServices names) (matched : matchPrefix servicePrefixes service = true) :
    after.context.containsService service = true := by
  obtain ⟨first, last, split⟩ := List.append_of_mem listed
  rw [update, split, List.foldlM_append, Cxx.bind_eq_ok] at done
  obtain ⟨middle, passed, rest⟩ := done
  rw [List.foldlM_cons, Cxx.bind_eq_ok] at rest
  obtain ⟨next, turn, others⟩ := rest
  have keptMiddle := kept.services passed
  have inside := updateService_contains keptMiddle turn matched
  have keptNext := keptMiddle.updateService turn
  rw [keptNext.replayed, containsService_replay] at inside
  rw [(keptNext.services others).replayed, containsService_replay]
  refine inside.imp_left ?_
  rintro ⟨call, asked, ofService⟩
  exact ⟨call, (services_ask others).subset asked, ofService⟩

end Dbus2Http.UpdateThread

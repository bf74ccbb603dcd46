import Dbus2Http.SearchTree

set_option autoImplicit false

namespace Dbus2Http.SignalSocket

open SearchTree (Sorted)

/-! ### The order of the handles -/

/-- What the handles lead to at a moment: the address of a connection, or nothing when it has
expired. Connections that are there stand at different addresses. -/
structure Moment (Hdl : Type) where
  lock : Hdl → Option Nat
  distinct : ∀ {a b : Hdl} {address : Nat}, lock a = some address → lock b = some address → a = b

section Compare

variable {Hdl : Type}

/-- `ConnectionHdlCompare` -/
def connectionHdlCompare (now : Moment Hdl) (a b : Hdl) : Bool :=
  match now.lock a, now.lock b with
  | some ptrA, some ptrB => ptrA < ptrB
  | ptrA, ptrB => ptrA.isNone && ptrB.isSome

namespace Moment

/-- Expired handles come first, the others in the order of their addresses. -/
def rank (now : Moment Hdl) (h : Hdl) : Nat :=
  match now.lock h with
  | none => 0
  | some address => address + 1

theorem rank_of_expired {now : Moment Hdl} {h : Hdl} (expired : now.lock h = none) :
    now.rank h = 0 := by
  rw [rank, expired]

theorem rank_of_live {now : Moment Hdl} {h : Hdl} {address : Nat} (live : now.lock h = some address) :
    now.rank h = address + 1 := by
  rw [rank, live]

theorem rank_pos {now : Moment Hdl} {h : Hdl} : 0 < now.rank h ↔ now.lock h ≠ none := by
  rw [rank]
  cases now.lock h <;> simp

theorem eq_of_rank {now : Moment Hdl} {a b : Hdl} (live : now.lock a ≠ none)
    (same : now.rank a = now.rank b) : a = b := by
  obtain ⟨address, here⟩ := Option.ne_none_iff_exists'.mp live
  rw [rank_of_live here] at same
  cases there : now.lock b with
  | none =>
      rw [rank_of_expired there] at same
      omega
  | some other =>
      rw [rank_of_live there] at same
      obtain rfl : address = other := by omega
      exact now.distinct here there

/-- The moment after some connections have expired. -/
def without (now : Moment Hdl) (gone : Hdl → Bool) : Moment Hdl where
  lock h := if gone h then none else now.lock h
  distinct := by
    intro a b address here there
    split at here
    · contradiction
    · split at there
      · contradiction
      · exact now.distinct here there

theorem rank_of_gone (now : Moment Hdl) {gone : Hdl → Bool} {h : Hdl} (expires : gone h = true) :
    (now.without gone).rank h = 0 :=
  rank_of_expired (if_pos expires)

theorem rank_of_kept (now : Moment Hdl) {gone : Hdl → Bool} {h : Hdl} (stays : gone h = false) :
    (now.without gone).rank h = now.rank h := by
  rw [rank, rank]
  simp [without, stays]

end Moment

theorem compare_iff {now : Moment Hdl} {a b : Hdl} :
    connectionHdlCompare now a b = true ↔ now.rank a < now.rank b := by
  rw [connectionHdlCompare, Moment.rank, Moment.rank]
  cases now.lock a <;> cases now.lock b <;> simp

theorem compare_eq_iff {now later : Moment Hdl} {a b : Hdl} :
    connectionHdlCompare later a b = connectionHdlCompare now a b ↔
      (later.rank a < later.rank b ↔ now.rank a < now.rank b) := by
  rw [Bool.eq_iff_iff, compare_iff, compare_iff]

/-- At each moment the handles are in a strict weak order. -/
theorem compare_weak (now : Moment Hdl) :
    IsStrictWeakOrder Hdl fun a b => connectionHdlCompare now a b = true where
  irrefl a := by
    rw [compare_iff]
    omega
  trans a b c := by
    simp only [compare_iff]
    omega
  incomp_trans a b c := by
    simp only [compare_iff]
    omega

/-- Comparing two of the keys gives after the expiry what it gave before. -/
def KeepsOrder (now : Moment Hdl) (gone : Hdl → Bool) (keys : List Hdl) : Prop :=
  ∀ a ∈ keys, ∀ b ∈ keys,
    connectionHdlCompare (now.without gone) a b = connectionHdlCompare now a b

/-- A key that expires is the only one, with the lowest address, and none had expired before. -/
def Harmless (now : Moment Hdl) (gone : Hdl → Bool) (keys : List Hdl) : Prop :=
  ∀ b ∈ keys, ∀ address, now.lock b = some address → gone b = true →
    ∀ a ∈ keys, a ≠ b → gone a = false ∧ ∃ higher, now.lock a = some higher ∧ address < higher

theorem Harmless.above {now : Moment Hdl} {gone : Hdl → Bool} {keys : List Hdl}
    (harmless : Harmless now gone keys) {a b : Hdl} (inside : a ∈ keys) (inside' : b ∈ keys)
    (different : a ≠ b) (live : now.lock b ≠ none) (expires : gone b = true) :
    now.rank b < now.rank a ∧ (now.without gone).rank a = now.rank a ∧
      (now.without gone).rank b = 0 := by
  obtain ⟨address, here⟩ := Option.ne_none_iff_exists'.mp live
  obtain ⟨stays, higher, there, lower⟩ := harmless b inside' address here expires a inside different
  refine ⟨?_, now.rank_of_kept stays, now.rank_of_gone expires⟩
  rw [Moment.rank_of_live here, Moment.rank_of_live there]
  omega

theorem rank_unless {now : Moment Hdl} {gone : Hdl → Bool} {h : Hdl}
    (other : ¬ (now.lock h ≠ none ∧ gone h = true)) : (now.without gone).rank h = now.rank h := by
  cases expires : gone h with
  | false => exact now.rank_of_kept expires
  | true =>
      have dead : now.lock h = none := by
        by_contra live
        exact other ⟨live, expires⟩
      rw [now.rank_of_gone expires, Moment.rank_of_expired dead]

/-- The order of the keys outlives just those expiries. -/
theorem keepsOrder_iff {now : Moment Hdl} {gone : Hdl → Bool} {keys : List Hdl} :
    KeepsOrder now gone keys ↔ Harmless now gone keys := by
  constructor
  · intro keeps b inside' address here expires a inside different
    have nothing := now.rank_of_gone expires
    have first := compare_eq_iff.mp (keeps a inside b inside')
    have second := compare_eq_iff.mp (keeps b inside' a inside)
    have live : now.lock b ≠ none := by simp [here]
    have apart : now.rank b ≠ now.rank a := fun same => different (Moment.eq_of_rank live same).symm
    have above : now.rank b < now.rank a := by omega
    have stays : 0 < (now.without gone).rank a := by omega
    obtain ⟨higher, there⟩ := Option.ne_none_iff_exists'.mp (Moment.rank_pos.mp (by omega : 0 < now.rank a))
    rw [Moment.rank_of_live here, Moment.rank_of_live there] at above
    refine ⟨?_, higher, there, by omega⟩
    cases kept : gone a with
    | false => rfl
    | true =>
        rw [now.rank_of_gone kept] at stays
        omega
  · intro harmless a inside b inside'
    rw [compare_eq_iff]
    by_cases same : a = b
    · rw [same]
      omega
    · by_cases first : now.lock a ≠ none ∧ gone a = true
      · have facts := harmless.above inside' inside (Ne.symm same) first.1 first.2
        omega
      · by_cases second : now.lock b ≠ none ∧ gone b = true
        · have facts := harmless.above inside inside' same second.1 second.2
          omega
        · rw [rank_unless first, rank_unless second]

end Compare

/-! ### Connections come and go -/

structure Sockets (Hdl Slot : Type) where
  now : Moment Hdl
  conn2slot : SearchTree (Hdl × Slot)

def Sockets.keys {Hdl Slot : Type} (s : Sockets Hdl Slot) : List Hdl :=
  s.conn2slot.toList.map Prod.fst

section Steps

variable {Hdl Slot : Type} [DecidableEq Hdl]

/-- The moment after a new connection is there. -/
def Moment.accept (now : Moment Hdl) (h : Hdl) (address : Nat)
    (free : ∀ other, now.lock other ≠ some address) : Moment Hdl where
  lock other := if other = h then some address else now.lock other
  distinct := by
    intro a b place here there
    split at here
    · cases here
      split at there
      · rename_i same other
        rw [same, other]
      · exact absurd there (free b)
    · split at there
      · cases there
        exact absurd here (free a)
      · exact now.distinct here there

inductive Event (Hdl Slot : Type)
  | accept (h : Hdl) (address : Nat)
  | opened (h : Hdl) (slot : Slot)
  | closed (h : Hdl)
  | expired (gone : Hdl → Bool)
  | stopped

/-- One step of the server thread. What the map does to its tree beside the change of its entries
is left open. -/
inductive Step : Sockets Hdl Slot → Event Hdl Slot → Sockets Hdl Slot → Prop
  | accept {s : Sockets Hdl Slot} {h : Hdl} {address : Nat} (new : h ∉ s.keys)
      (absent : s.now.lock h = none) (free : ∀ other, s.now.lock other ≠ some address) :
      Step s (.accept h address) { s with now := s.now.accept h address free }
  | opened {s : Sockets Hdl Slot} {h : Hdl} {slot : Slot} {tree : SearchTree (Hdl × Slot)}
      (live : s.now.lock h ≠ none)
      (entries : tree.toList = s.conn2slot.assigned (connectionHdlCompare s.now) h slot) :
      Step s (.opened h slot) { s with conn2slot := tree }
  | closed {s : Sockets Hdl Slot} {h : Hdl} {tree : SearchTree (Hdl × Slot)}
      (entries : tree.toList = s.conn2slot.erased (connectionHdlCompare s.now) h) :
      Step s (.closed h) { s with conn2slot := tree }
  | expired {s : Sockets Hdl Slot} (gone : Hdl → Bool) :
      Step s (.expired gone) { s with now := s.now.without gone }
  | stopped {s : Sockets Hdl Slot} : Step s .stopped { s with conn2slot := .leaf }

def noConnections : Sockets Hdl Slot where
  now := ⟨fun _ => none, fun here => nomatch here⟩
  conn2slot := .leaf

/-- What a server comes to whose steps are all allowed. -/
inductive Reached (allowed : Sockets Hdl Slot → Event Hdl Slot → Prop) : Sockets Hdl Slot → Prop
  | start : Reached allowed noConnections
  | step {s s' : Sockets Hdl Slot} {event : Event Hdl Slot} (before : Reached allowed s)
      (fits : allowed s event) (step : Step s event s') : Reached allowed s'

/-- Where connections expire, the order of the keys outlives it. -/
def HarmlessEvent (s : Sockets Hdl Slot) (event : Event Hdl Slot) : Prop :=
  ∀ gone, event = .expired gone → Harmless s.now gone s.keys

/-- Closing a live connection takes its slot out of the map, and no other. -/
def FindsSlots (s : Sockets Hdl Slot) : Prop :=
  ∀ h, s.now.lock h ≠ none → ∀ s', Step s (.closed h) s' →
    s'.conn2slot.toList = s.conn2slot.toList.filter fun e => e.1 ≠ h

omit [DecidableEq Hdl] in
/-- Nothing but itself is equivalent to a live connection. -/
theorem alone_of_live {now : Moment Hdl} {h : Hdl} (live : now.lock h ≠ none) (other : Hdl)
    (notBelow : connectionHdlCompare now other h = false)
    (notAbove : connectionHdlCompare now h other = false) : other = h := by
  rw [← Bool.not_eq_true, compare_iff] at notBelow notAbove
  exact (Moment.eq_of_rank live (by omega)).symm

/-- No step but an expiry that is not harmless changes how two keys compare. -/
theorem Step.compare_eq {s s' : Sockets Hdl Slot} {event : Event Hdl Slot} (step : Step s event s')
    (harmless : HarmlessEvent s event) :
    ∀ a ∈ s.keys, ∀ b ∈ s.keys,
      connectionHdlCompare s'.now a b = connectionHdlCompare s.now a b := by
  cases step with
  | @accept h address new absent free =>
      have old : ∀ a ∈ s.keys, (s.now.accept h address free).lock a = s.now.lock a := by
        intro a inside
        apply if_neg
        rintro rfl
        exact new inside
      intro a inside b inside'
      rw [connectionHdlCompare, connectionHdlCompare, old a inside, old b inside']
  | opened live entries => exact fun _ _ _ _ => rfl
  | closed entries => exact fun _ _ _ _ => rfl
  | expired gone => exact keepsOrder_iff.mpr (harmless gone rfl)
  | stopped => exact fun _ _ _ _ => rfl

/-- Where the entries are in the order of the moment they stay so. -/
theorem Step.sorted {s s' : Sockets Hdl Slot} {event : Event Hdl Slot} (step : Step s event s')
    (harmless : HarmlessEvent s event)
    (sorted : Sorted (connectionHdlCompare s.now) s.conn2slot.toList) :
    Sorted (connectionHdlCompare s'.now) s'.conn2slot.toList := by
  have compares := step.compare_eq harmless
  have kept : Sorted (connectionHdlCompare s'.now) s.conn2slot.toList :=
    sorted.congr fun a inside b inside' =>
      compares _ (List.mem_map_of_mem inside) _ (List.mem_map_of_mem inside')
  cases step with
  | accept new absent free => exact kept
  | opened live entries =>
      rw [entries]
      exact (SearchTree.sorted_assigned (compare_weak s.now) sorted (alone_of_live live) _).1
  | @closed h tree entries =>
      rw [entries, SearchTree.erased_of_sorted (compare_weak s.now) sorted h]
      exact sorted.sublist List.filter_sublist
  | expired gone => exact kept
  | stopped => exact List.Pairwise.nil

theorem Reached.sorted {s : Sockets Hdl Slot} (reached : Reached HarmlessEvent s) :
    Sorted (connectionHdlCompare s.now) s.conn2slot.toList := by
  induction reached with
  | start => exact List.Pairwise.nil
  | step before fits step ih => exact step.sorted fits ih

theorem findsSlots_of_sorted {s : Sockets Hdl Slot}
    (sorted : Sorted (connectionHdlCompare s.now) s.conn2slot.toList) : FindsSlots s := by
  intro h live s' step
  cases step with
  | closed entries =>
      rw [entries, SearchTree.erased_of_sorted (compare_weak s.now) sorted h]
      apply List.filter_congr
      intro e _
      by_cases same : e.1 = h
      · have still : connectionHdlCompare s.now h h = false := by
          rw [← Bool.not_eq_true]
          exact (compare_weak s.now).irrefl h
        simp [same, still]
      · have apart : connectionHdlCompare s.now e.1 h = true ∨
            connectionHdlCompare s.now h e.1 = true := by
          by_contra neither
          rw [not_or, Bool.not_eq_true, Bool.not_eq_true] at neither
          exact same (alone_of_live live e.1 neither.1 neither.2)
        simpa [same] using apart

/-- The comparison is a strict weak order at every moment. An expiry leaves the order of the keys
as it is exactly when it is harmless, and in every run of harmless expiries no step changes that
order and each live connection that is closed has its slot found. -/
theorem connections_ordered :
    (∀ now : Moment Hdl, IsStrictWeakOrder Hdl fun a b => connectionHdlCompare now a b = true) ∧
    (∀ (s : Sockets Hdl Slot) (gone : Hdl → Bool),
      KeepsOrder s.now gone s.keys ↔ Harmless s.now gone s.keys) ∧
    ∀ s : Sockets Hdl Slot, Reached HarmlessEvent s →
      FindsSlots s ∧
      ∀ event s', HarmlessEvent s event → Step s event s' →
        ∀ a ∈ s.keys, ∀ b ∈ s.keys,
          connectionHdlCompare s'.now a b = connectionHdlCompare s.now a b := by
  refine ⟨compare_weak, fun s gone => keepsOrder_iff, fun s reached => ⟨?_, ?_⟩⟩
  · exact findsSlots_of_sorted reached.sorted
  · intro event s' harmless step
    exact step.compare_eq harmless

end Steps

/-! ### Two connections -/

def oneMoment : Moment Nat :=
  (noConnections : Sockets Nat Nat).now.accept 1 2 fun _ there => nomatch there

theorem oneMoment_free (other : Nat) : oneMoment.lock other ≠ some 1 := by
  by_cases same : other = 1
  · rw [same]
    decide
  · simp [oneMoment, Moment.accept, noConnections, same]

/-- The connection that came first has the higher address. -/
def twoConnections : Sockets Nat Nat where
  now := oneMoment.accept 0 1 oneMoment_free
  conn2slot := .node (.node .leaf (0, 10) .leaf) (1, 11) .leaf

theorem twoConnections_reached {allowed : Sockets Nat Nat → Event Nat Nat → Prop}
    (fits : ∀ s event, (∀ gone, event ≠ .expired gone) → allowed s event) :
    Reached allowed twoConnections := by
  have first : Reached allowed ⟨oneMoment, .leaf⟩ :=
    .step .start (fits _ (.accept 1 2) (by simp)) (.accept (by decide) rfl _)
  have second : Reached allowed ⟨oneMoment, .node .leaf (1, 11) .leaf⟩ :=
    .step first (fits _ (.opened 1 11) (by simp)) (.opened (by decide) rfl)
  have third : Reached allowed
      ⟨oneMoment.accept 0 1 oneMoment_free, .node .leaf (1, 11) .leaf⟩ :=
    .step second (fits _ (.accept 0 1) (by simp)) (.accept (by decide) rfl _)
  exact .step third (fits _ (.opened 0 10) (by simp)) (.opened (by decide) rfl)

theorem twoConnections_ordered : FindsSlots twoConnections ∧
    connectionHdlCompare (twoConnections.now.without (· = 0)) 0 1 =
      connectionHdlCompare twoConnections.now 0 1 := by
  have reached : Reached HarmlessEvent twoConnections :=
    twoConnections_reached fun s event other gone same => absurd same (other gone)
  have harmless : HarmlessEvent twoConnections (.expired (· = 0)) := by
    intro gone same b inside address here expires a inside' different
    cases same
    obtain rfl : b = 0 := of_decide_eq_true expires
    obtain rfl : address = 1 := (Option.some.inj here).symm
    have other : a = 0 ∨ a = 1 := by simpa [Sockets.keys, twoConnections, SearchTree.toList] using inside'
    obtain rfl := other.resolve_left different
    exact ⟨by decide, 2, rfl, by decide⟩
  obtain ⟨finds, keeps⟩ := (@connections_ordered Nat Nat _).2.2 twoConnections reached
  exact ⟨finds, keeps _ _ harmless (.expired _) 0 (by decide) 1 (by decide)⟩

/-- When the connection with the higher address expires first, its key is still the root of the
tree but comes before the other one now, and closing the other one does not find its slot. -/
theorem expiry_hides_slot :
    ¬ KeepsOrder twoConnections.now (· = 1) twoConnections.keys ∧
    ∃ later, Reached (fun _ _ => True) later ∧ Step twoConnections (.expired (· = 1)) later ∧
      later.now.lock 0 ≠ none ∧
      ∀ s', Step later (.closed 0) s' → s'.conn2slot.toList = later.conn2slot.toList ∧
        (0, 10) ∈ s'.conn2slot.toList := by
  have step : Step twoConnections (.expired (· = 1))
      { twoConnections with now := twoConnections.now.without (· = 1) } := .expired _
  refine ⟨?_, _, .step (twoConnections_reached fun _ _ _ => trivial) trivial step, step, by decide, ?_⟩
  · intro keeps
    have same := keeps 0 (by decide) 1 (by decide)
    exact absurd same (by decide)
  · intro s' closing
    cases closing with
    | closed entries =>
        have unchanged : SearchTree.erased
            (connectionHdlCompare (twoConnections.now.without (· = 1))) twoConnections.conn2slot 0 =
              twoConnections.conn2slot.toList := by decide
        rw [unchanged] at entries
        rw [entries]
        exact ⟨rfl, by decide⟩

end Dbus2Http.SignalSocket

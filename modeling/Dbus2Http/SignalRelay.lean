import Dbus2Http.Broker
import Dbus2Http.ConnectionOrder
import Dbus2Http.SignalMessage
import Dbus2Http.SignalSocket

set_option autoImplicit false

namespace Dbus2Http.SignalSocket

open Cxx (Str Run Ends)
open Dbus (MessageReader)
open Message2Json (Env)
open SearchTree (Sorted)

/-! ### The relay and its steps -/

inductive Opcode
  | text | binary
deriving DecidableEq, Repr

/-- A websocket message. -/
structure Frame where
  opcode : Opcode
  payload : Str
deriving DecidableEq

/-- A slot: while it is there its callback is called for each message that matches the rule. -/
structure Subscription (Hdl : Type) where
  connHdl : Hdl
  rule : Str
deriving DecidableEq

/-- What the relay works with: the bus decides which messages match a rule, and the JSON library
writes texts. -/
structure Relay (M : Type) where
  isMatch : Str → BusMessage M → Bool
  config : Config
  fuel : Nat
  dump : Json → Except Str Str

/-- The connections that wait for the open handler, those that can be sent to while they are there,
and as a history variable everything that was sent. -/
structure RelayState (Hdl : Type) where
  sockets : Sockets Hdl (Subscription Hdl)
  waiting : Hdl → Bool := fun _ => false
  sendable : Hdl → Bool := fun _ => false
  registry : InterfaceContext := {}
  sent : List (Hdl × Frame) := []

/-- A signal comes with what each callback meets when it reads the message: callbacks share the
descriptors in it, so what one of them has read the next does not find. -/
inductive RelayEvent (Hdl M : Type)
  | accept (h : Hdl) (address : Nat)
  | opened (h : Hdl) (query : Str) (addMatch : Except Str Unit)
  | message (h : Hdl) (frame : Frame)
  | signal (msg : BusMessage M) (env : Hdl → Env)
  | registered (registry : InterfaceContext)
  | closing (h : Hdl)
  | closed (h : Hdl)
  | expired (gone : Hdl → Bool)
  | stopped

section Relay

variable {Hdl M : Type} [DecidableEq Hdl] [MessageReader M]

namespace RelayState

def slots (s : RelayState Hdl) : List (Subscription Hdl) := s.sockets.conn2slot.toList.map Prod.snd

/-- The connection is there and takes messages. -/
def isOpen (s : RelayState Hdl) (h : Hdl) : Bool := (s.sockets.now.lock h).isSome && s.sendable h

/-- What was sent to one connection, in order. -/
def sentTo (s : RelayState Hdl) (h : Hdl) : List Frame :=
  (s.sent.filter fun entry => entry.1 = h).map Prod.snd

end RelayState

/-- The open handler of one connection. -/
def openFor (h : Hdl) (query : Str) (addMatch : Except Str Unit) : Run (Opened (Subscription Hdl)) :=
  openHandler (fun rule => addMatch.map fun _ => ⟨h, rule⟩) query

/-- The frame that is sent for a message; none where its signal is not registered, and none where
the callback raises an exception. -/
def frameFor (relay : Relay M) (registry : InterfaceContext) (msg : BusMessage M) (env : Env) :
    Option Frame :=
  match relayed env relay.fuel registry msg with
  | .ok (some j) => (relay.dump j).toOption.map fun text => ⟨.text, text⟩
  | _ => none

/-- The callback of one slot. -/
def callback (relay : Relay M) (s : RelayState Hdl) (msg : BusMessage M) (env : Hdl → Env)
    (slot : Subscription Hdl) : Option (Hdl × Frame) :=
  if relay.isMatch slot.rule msg && s.isOpen slot.connHdl then
    (frameFor relay s.registry msg (env slot.connHdl)).map fun frame => (slot.connHdl, frame)
  else none

inductive RelayStep (relay : Relay M) : RelayState Hdl → RelayEvent Hdl M → RelayState Hdl → Prop
  | accept {s : RelayState Hdl} {h : Hdl} {address : Nat} (new : h ∉ s.sockets.keys)
      (fresh : ∀ slot ∈ s.slots, slot.connHdl ≠ h) (absent : s.sockets.now.lock h = none)
      (free : ∀ other, s.sockets.now.lock other ≠ some address) :
      RelayStep relay s (.accept h address) { s with
        sockets := { s.sockets with now := s.sockets.now.accept h address free }
        waiting := Function.update s.waiting h true
        sendable := Function.update s.sendable h false }
  | subscribed {s : RelayState Hdl} {h : Hdl} {query rule : Str} {addMatch : Except Str Unit}
      {tree : SearchTree (Hdl × Subscription Hdl)} (waits : s.waiting h = true)
      (live : s.sockets.now.lock h ≠ none)
      (handled : openFor h query addMatch = .ok (.subscribed rule ⟨h, rule⟩))
      (entries : tree.toList =
        s.sockets.conn2slot.assigned (connectionHdlCompare s.sockets.now) h ⟨h, rule⟩) :
      RelayStep relay s (.opened h query addMatch) { s with
        sockets := { s.sockets with conn2slot := tree }
        waiting := Function.update s.waiting h false
        sendable := Function.update s.sendable h true }
  | refused {s : RelayState Hdl} {h : Hdl} {query : Str} {addMatch : Except Str Unit}
      {answer : Opened (Subscription Hdl)} (waits : s.waiting h = true)
      (handled : openFor h query addMatch = .ok answer)
      (without : ∀ rule slot, answer ≠ .subscribed rule slot) :
      RelayStep relay s (.opened h query addMatch) { s with
        waiting := Function.update s.waiting h false
        sendable := Function.update s.sendable h false }
  | message {s : RelayState Hdl} {h : Hdl} {frame : Frame} (here : s.isOpen h = true) :
      RelayStep relay s (.message h frame) { s with sent := s.sent ++ [(h, frame)] }
  | signal {s : RelayState Hdl} {msg : BusMessage M} {env : Hdl → Env} {out : List (Hdl × Frame)}
      (config : ∀ h, (env h).config = relay.config)
      (ends : ∀ h, Ends (relayed (env h) relay.fuel s.registry msg))
      (called : out.Perm (s.slots.filterMap (callback relay s msg env))) :
      RelayStep relay s (.signal msg env) { s with sent := s.sent ++ out }
  | registered {s : RelayState Hdl} (registry : InterfaceContext) :
      RelayStep relay s (.registered registry) { s with registry := registry }
  | closing {s : RelayState Hdl} (h : Hdl) :
      RelayStep relay s (.closing h) { s with
        waiting := Function.update s.waiting h false
        sendable := Function.update s.sendable h false }
  | closed {s : RelayState Hdl} {h : Hdl} {tree : SearchTree (Hdl × Subscription Hdl)}
      (entries : tree.toList =
        s.sockets.conn2slot.erased (connectionHdlCompare s.sockets.now) h) :
      RelayStep relay s (.closed h) { s with
        sockets := { s.sockets with conn2slot := tree }
        waiting := Function.update s.waiting h false
        sendable := Function.update s.sendable h false }
  | expired {s : RelayState Hdl} (gone : Hdl → Bool) :
      RelayStep relay s (.expired gone) { s with
        sockets := { s.sockets with now := s.sockets.now.without gone }
        waiting := fun h => s.waiting h && !gone h }
  | stopped {s : RelayState Hdl} :
      RelayStep relay s .stopped { s with
        sockets := { s.sockets with conn2slot := .leaf }
        waiting := fun _ => false
        sendable := fun _ => false }

/-! ### What the relay is for -/

/-- What an event means to a broker whose members are the open connections. -/
def brokerEvent (relay : Relay M) (registry : InterfaceContext) :
    RelayEvent Hdl M → Broker.Event Hdl Str Frame
  | .accept h _ => .leave (· = h)
  | .opened h query addMatch =>
      match openFor h query addMatch with
      | .ok (.subscribed rule _) => .join h rule
      | _ => .leave (· = h)
  | .message h frame => .direct h frame
  | .signal msg env => .publish fun h rule =>
      if relay.isMatch rule msg then frameFor relay registry msg (env h) else none
  | .registered _ => .leave fun _ => false
  | .closing h => .leave (· = h)
  | .closed h => .leave (· = h)
  | .expired gone => .leave gone
  | .stopped => .leave fun _ => true

def registryAfter (registry : InterfaceContext) : RelayEvent Hdl M → InterfaceContext
  | .registered new => new
  | _ => registry

/-- The events as the broker sees them, each signal under the registry of its moment. -/
def history (relay : Relay M) : InterfaceContext → List (RelayEvent Hdl M) →
    List (Broker.Event Hdl Str Frame)
  | _, [] => []
  | registry, event :: later =>
      brokerEvent relay registry event :: history relay (registryAfter registry event) later

inductive RelayRun (relay : Relay M) (allowed : RelayState Hdl → RelayEvent Hdl M → Prop) :
    RelayState Hdl → List (RelayEvent Hdl M) → RelayState Hdl → Prop
  | done (s : RelayState Hdl) : RelayRun relay allowed s [] s
  | step {s s' final : RelayState Hdl} {event : RelayEvent Hdl M} {later : List (RelayEvent Hdl M)}
      (fits : allowed s event) (first : RelayStep relay s event s')
      (others : RelayRun relay allowed s' later final) :
      RelayRun relay allowed s (event :: later) final

def RelayState.start (registry : InterfaceContext) : RelayState Hdl where
  sockets := noConnections
  registry := registry

/-! ### The relay never gives a connection more than the broker does -/

/-- At most one slot for each connection, none for one that waits; those who can be sent to are
the members, and the slots of members have their rules. -/
structure Tracks (s : RelayState Hdl) (rules : Hdl → Option Str) : Prop where
  single : (s.slots.map Subscription.connHdl).Nodup
  waits : ∀ h, s.waiting h = true → ∀ slot ∈ s.slots, slot.connHdl ≠ h
  members : ∀ h, s.isOpen h = true ↔ (rules h).isSome
  own : ∀ slot ∈ s.slots, s.isOpen slot.connHdl = true → rules slot.connHdl = some slot.rule

theorem RelayStep.registry_eq {relay : Relay M} {s s' : RelayState Hdl} {event : RelayEvent Hdl M}
    (step : RelayStep relay s event s') : s'.registry = registryAfter s.registry event := by
  cases step <;> rfl

/-- Of the callbacks of all slots only that of its own slot sends to a connection. -/
theorem callbacks_for (relay : Relay M) {s : RelayState Hdl}
    (single : (s.slots.map Subscription.connHdl).Nodup) (msg : BusMessage M)
    (env : Hdl → Env) (h : Hdl) :
    ((s.slots.filterMap (callback relay s msg env)).filter fun entry => entry.1 = h) =
      ((s.slots.find? fun slot => slot.connHdl = h).bind (callback relay s msg env)).toList := by
  have own : ∀ slot entry, callback relay s msg env slot = some entry → entry.1 = slot.connHdl := by
    intro slot entry called
    rw [callback] at called
    split at called
    · obtain ⟨frame, _, rfl⟩ := Option.map_eq_some_iff.mp called
      rfl
    · cases called
  generalize s.slots = slots at single
  induction slots with
  | nil => rfl
  | cons slot rest ih =>
      rw [List.map_cons, List.nodup_cons] at single
      rw [List.filterMap_cons]
      by_cases mine : slot.connHdl = h
      · have others :
            ((rest.filterMap (callback relay s msg env)).filter fun entry => entry.1 = h) = [] := by
          rw [List.filter_eq_nil_iff]
          intro entry inside same
          obtain ⟨other, member, called⟩ := List.mem_filterMap.mp inside
          have name := own other entry called
          rw [of_decide_eq_true same, ← mine] at name
          exact single.1 (name ▸ List.mem_map_of_mem member)
        rw [List.find?_cons_of_pos (by simpa using mine)]
        cases called : callback relay s msg env slot with
        | none => simp only [others, Option.bind_some, called, Option.toList_none]
        | some entry =>
            have name := own slot entry called
            simp [others, called, name, mine]
      · rw [List.find?_cons_of_neg (by simpa using mine), ← ih single.2]
        cases called : callback relay s msg env slot with
        | none => rfl
        | some entry =>
            have name := own slot entry called
            simp [name, mine]

/-- Some connections stop being open; slots may go, and a new connection may wait. -/
theorem Tracks.leave {s s' : RelayState Hdl} {rules : Hdl → Option Str} (tracks : Tracks s rules)
    {gone : Hdl → Bool} (slots : s'.slots.Sublist s.slots)
    (waits : ∀ h, s'.waiting h = true → s.waiting h = true ∨ ∀ slot ∈ s.slots, slot.connHdl ≠ h)
    (opens : ∀ h, s'.isOpen h = (s.isOpen h && !gone h)) :
    Tracks s' (Broker.step rules (.leave gone : Broker.Event Hdl Str Frame)) := by
  refine ⟨tracks.single.sublist (slots.map _), ?_, ?_, ?_⟩
  · intro h waiting slot inside
    rcases waits h waiting with before | new
    · exact tracks.waits h before slot (slots.subset inside)
    · exact new slot (slots.subset inside)
  · intro h
    have before := tracks.members h
    change _ ↔ (if gone h then none else rules h).isSome = true
    rw [opens]
    cases gone h
    · simpa using before
    · simp
  · intro slot inside isOpen
    rw [opens, Bool.and_eq_true, Bool.not_eq_true'] at isOpen
    change (if gone slot.connHdl then none else rules slot.connHdl) = _
    rw [isOpen.2]
    exact tracks.own slot (slots.subset inside) isOpen.1

/-- Nothing waits that did not wait before. -/
theorem waiting_off {waiting : Hdl → Bool} {h other : Hdl}
    (waits : Function.update waiting h false other = true) : waiting other = true := by
  by_cases same : other = h
  · rw [same, Function.update_self] at waits
    cases waits
  · rwa [Function.update_of_ne same] at waits

/-- A waiting connection becomes a member with a slot of its own. -/
theorem Tracks.join {s : RelayState Hdl} {rules : Hdl → Option Str} (tracks : Tracks s rules) {h : Hdl}
    {rule : Str} {tree : SearchTree (Hdl × Subscription Hdl)} (waits : s.waiting h = true)
    (live : s.sockets.now.lock h ≠ none)
    (entries : tree.toList =
      s.sockets.conn2slot.assigned (connectionHdlCompare s.sockets.now) h ⟨h, rule⟩) :
    Tracks { s with
      sockets := { s.sockets with conn2slot := tree }
      waiting := Function.update s.waiting h false
      sendable := Function.update s.sendable h true }
      (Broker.step rules (.join h rule : Broker.Event Hdl Str Frame)) := by
  obtain ⟨front, back, kept, before, fewer, after⟩ := @SearchTree.values_assigned _ _
    (connectionHdlCompare s.sockets.now) s.sockets.conn2slot h (⟨h, rule⟩ : Subscription Hdl)
  rw [← entries] at after
  have old : (front ++ kept).Sublist s.slots := by
    rw [RelayState.slots, before]
    exact fewer.append_left front
  have absent : ∀ slot ∈ front ++ kept, slot.connHdl ≠ h := fun slot inside =>
    tracks.waits h waits slot (old.subset inside)
  have split : ∀ slot ∈ tree.toList.map Prod.snd, slot = ⟨h, rule⟩ ∨ slot ∈ front ++ kept := by
    intro slot inside
    rw [after] at inside
    exact List.mem_cons.mp (List.perm_middle.mem_iff.mp inside)
  have opens : ∀ other, RelayState.isOpen { s with
      sockets := { s.sockets with conn2slot := tree }
      waiting := Function.update s.waiting h false
      sendable := Function.update s.sendable h true } other =
        if h = other then true else s.isOpen other := by
    intro other
    by_cases same : h = other
    · subst same
      have there := Option.isSome_iff_ne_none.mpr live
      simp [RelayState.isOpen, there]
    · simp [RelayState.isOpen, same, Function.update_of_ne (Ne.symm same)]
  refine ⟨?_, ?_, ?_, ?_⟩
  · change ((tree.toList.map Prod.snd).map Subscription.connHdl).Nodup
    rw [after, (List.perm_middle.map Subscription.connHdl).nodup_iff, List.map_cons, List.nodup_cons]
    refine ⟨?_, tracks.single.sublist (old.map _)⟩
    intro inside
    obtain ⟨slot, member, same⟩ := List.mem_map.mp inside
    exact absent slot member same
  · intro other waiting slot inside
    have before := waiting_off waiting
    rcases split slot inside with rfl | member
    · rintro rfl
      have itself : Function.update s.waiting h false h = true := waiting
      rw [Function.update_self] at itself
      cases itself
    · exact tracks.waits other before slot (old.subset member)
  · intro other
    rw [opens]
    change _ ↔ (if h = other then some rule else rules other).isSome = true
    split
    · simp
    · exact tracks.members other
  · intro slot inside isOpen
    rw [opens] at isOpen
    change (if h = slot.connHdl then some rule else rules slot.connHdl) = some slot.rule
    rcases split slot inside with rfl | member
    · exact if_pos rfl
    · have different := (absent slot member).symm
      rw [if_neg different] at isOpen ⊢
      exact tracks.own slot (old.subset member) isOpen

theorem openFor_rule {h : Hdl} {query rule : Str} {addMatch : Except Str Unit} {slot : Subscription Hdl}
    (handled : openFor h query addMatch = .ok (.subscribed rule slot)) (relay : Relay M)
    (registry : InterfaceContext) :
    brokerEvent relay registry (.opened h query addMatch) = .join h rule := by
  rw [brokerEvent, handled]

theorem openFor_refused {h : Hdl} {query : Str} {addMatch : Except Str Unit}
    {answer : Opened (Subscription Hdl)} (handled : openFor h query addMatch = .ok answer)
    (without : ∀ rule slot, answer ≠ .subscribed rule slot) (relay : Relay M)
    (registry : InterfaceContext) :
    brokerEvent relay registry (.opened h query addMatch) = .leave (· = h) := by
  rw [brokerEvent, handled]
  cases answer with
  | subscribed rule slot => exact absurd rfl (without rule slot)
  | rejected => rfl
  | failed => rfl

theorem update_off (sendable : Hdl → Bool) (h other : Hdl) :
    Function.update sendable h false other = (sendable other && !decide (other = h)) := by
  by_cases same : other = h
  · simp [same]
  · simp [same]

/-- One step of the relay is one step of the broker. -/
theorem Tracks.step {relay : Relay M} {s s' : RelayState Hdl} {event : RelayEvent Hdl M}
    {rules : Hdl → Option Str} (tracks : Tracks s rules) (step : RelayStep relay s event s') :
    Tracks s' (Broker.step rules (brokerEvent relay s.registry event)) := by
  cases step with
  | @accept h address new fresh absent free =>
      refine tracks.leave (.refl _) ?_ ?_
      · intro other waiting
        by_cases same : other = h
        · exact .inr (same ▸ fresh)
        · have before : Function.update s.waiting h true other = true := waiting
          rw [Function.update_of_ne same] at before
          exact .inl before
      · intro other
        simp only [RelayState.isOpen, update_off, Moment.accept]
        by_cases same : other = h <;> simp [same]
  | @subscribed h query rule addMatch tree waits live handled entries =>
      rw [openFor_rule handled]
      exact tracks.join waits live entries
  | @refused h query addMatch answer waits handled without =>
      rw [openFor_refused handled without]
      refine tracks.leave (.refl _) (fun other waiting => .inl (waiting_off waiting)) ?_
      intro other
      simp only [RelayState.isOpen, update_off, Bool.and_assoc]
  | message here => exact ⟨tracks.single, tracks.waits, tracks.members, tracks.own⟩
  | signal config ends called => exact ⟨tracks.single, tracks.waits, tracks.members, tracks.own⟩
  | registered registry =>
      refine tracks.leave (.refl _) (fun other waiting => .inl waiting) ?_
      intro other
      simp only [RelayState.isOpen, Bool.not_false, Bool.and_true]
  | closing h =>
      refine tracks.leave (.refl _) (fun other waiting => .inl (waiting_off waiting)) ?_
      intro other
      simp only [RelayState.isOpen, update_off, Bool.and_assoc]
  | @closed h tree entries =>
      refine tracks.leave ?_ (fun other waiting => .inl (waiting_off waiting)) ?_
      · have fewer := SearchTree.erased_sublist (compare_weak s.sockets.now) s.sockets.conn2slot h
        rw [← entries] at fewer
        exact fewer.map Prod.snd
      · intro other
        simp only [RelayState.isOpen, update_off, Bool.and_assoc]
  | expired gone =>
      refine tracks.leave (.refl _) (fun other waiting => .inl (Bool.and_eq_true_iff.mp waiting).1) ?_
      intro other
      simp only [RelayState.isOpen, Moment.without]
      cases gone other <;> simp
  | stopped =>
      refine tracks.leave (List.nil_sublist _) (fun other waiting => by cases waiting) ?_
      intro other
      simp only [RelayState.isOpen, Bool.and_false, Bool.not_true]

/-! ### What is sent -/

/-- Every member has a slot with its rule. -/
def Kept (s : RelayState Hdl) (rules : Hdl → Option Str) : Prop :=
  ∀ h rule, rules h = some rule → ⟨h, rule⟩ ∈ s.slots

theorem sentTo_append (s : RelayState Hdl) (more : List (Hdl × Frame)) (h : Hdl) :
    RelayState.sentTo { s with sent := s.sent ++ more } h =
      s.sentTo h ++ (more.filter fun entry => entry.1 = h).map Prod.snd := by
  rw [RelayState.sentTo, RelayState.sentTo, List.filter_append, List.map_append]

/-- The frames that the callbacks send to a connection for one message. -/
theorem called_for {relay : Relay M} {s : RelayState Hdl} {rules : Hdl → Option Str}
    (tracks : Tracks s rules) (msg : BusMessage M) (env : Hdl → Env) (h : Hdl)
    {out : List (Hdl × Frame)} (called : out.Perm (s.slots.filterMap (callback relay s msg env))) :
    ((out.filter fun entry => entry.1 = h).map Prod.snd).Sublist
        (Broker.given h (rules h) (brokerEvent relay s.registry (.signal msg env))) ∧
      (Kept s rules → (out.filter fun entry => entry.1 = h).map Prod.snd =
        Broker.given h (rules h) (brokerEvent relay s.registry (.signal msg env))) := by
  have mine := called.filter fun entry => entry.1 = h
  rw [callbacks_for relay tracks.single] at mine
  change _ ∧ (_ → _ = ((rules h).bind fun rule =>
    if relay.isMatch rule msg then frameFor relay s.registry msg (env h) else none).toList)
  change List.Sublist _ ((rules h).bind fun rule =>
    if relay.isMatch rule msg then frameFor relay s.registry msg (env h) else none).toList ∧ _
  cases found : s.slots.find? fun slot => slot.connHdl = h with
  | none =>
      rw [found] at mine
      rw [mine.eq_nil]
      refine ⟨List.nil_sublist _, fun kept => ?_⟩
      cases member : rules h with
      | none => rfl
      | some rule =>
          have there := List.find?_eq_none.mp found _ (kept h rule member)
          simp at there
  | some slot =>
      have inside := List.mem_of_find?_eq_some found
      obtain rfl : slot.connHdl = h := by simpa using List.find?_some found
      rw [found, Option.bind_some, callback] at mine
      cases isOpen : s.isOpen slot.connHdl with
      | false =>
          have stranger : rules slot.connHdl = none := by
            rw [← Option.not_isSome_iff_eq_none, ← tracks.members, isOpen]
            exact Bool.false_ne_true
          rw [isOpen, Bool.and_false] at mine
          rw [mine.eq_nil, stranger]
          exact ⟨.slnil, fun _ => rfl⟩
      | true =>
          rw [tracks.own slot inside isOpen, Option.bind_some]
          rw [isOpen, Bool.and_true] at mine
          cases matched : relay.isMatch slot.rule msg with
          | false =>
              rw [matched] at mine
              rw [mine.eq_nil]
              exact ⟨.slnil, fun _ => rfl⟩
          | true =>
              rw [matched, if_pos rfl] at mine
              simp only [↓reduceIte]
              cases frame : frameFor relay s.registry msg (env slot.connHdl) with
              | none =>
                  rw [frame] at mine
                  rw [mine.eq_nil]
                  exact ⟨.slnil, fun _ => rfl⟩
              | some frame' =>
                  rw [frame] at mine
                  rw [List.perm_singleton.mp mine]
                  exact ⟨.refl _, fun _ => rfl⟩

/-- One step sends to a connection what the broker gives to it, or less where its slot is lost. -/
theorem Tracks.sends {relay : Relay M} {s s' : RelayState Hdl} {event : RelayEvent Hdl M}
    {rules : Hdl → Option Str} (tracks : Tracks s rules) (step : RelayStep relay s event s') (h : Hdl) :
    ∃ out, s'.sentTo h = s.sentTo h ++ out ∧
      out.Sublist (Broker.given h (rules h) (brokerEvent relay s.registry event)) ∧
      (Kept s rules → out = Broker.given h (rules h) (brokerEvent relay s.registry event)) := by
  cases step with
  | @message other frame here =>
      refine ⟨_, sentTo_append s _ h, ?_⟩
      have same : (([(other, frame)].filter fun entry => entry.1 = h).map Prod.snd) =
          Broker.given h (rules h) (brokerEvent relay s.registry (.message other frame)) := by
        change _ = if other = h ∧ (rules h).isSome then [frame] else []
        by_cases mine : other = h
        · subst mine
          simp [(tracks.members other).mp here]
        · simp [mine]
      rw [same]
      exact ⟨.refl _, fun _ => rfl⟩
  | signal config ends called => exact ⟨_, sentTo_append s _ h, called_for tracks _ _ h called⟩
  | subscribed waits live handled entries =>
      rw [openFor_rule handled]
      exact ⟨[], (List.append_nil _).symm, .slnil, fun _ => rfl⟩
  | refused waits handled without =>
      rw [openFor_refused handled without]
      exact ⟨[], (List.append_nil _).symm, .slnil, fun _ => rfl⟩
  | _ => exact ⟨[], (List.append_nil _).symm, .slnil, fun _ => rfl⟩

/-! ### Where no slot is lost -/

/-- The map finds its entries, and each is under the connection of its own slot. -/
structure InOrder (s : RelayState Hdl) : Prop where
  sorted : Sorted (connectionHdlCompare s.sockets.now) s.sockets.conn2slot.toList
  keyed : ∀ e ∈ s.sockets.conn2slot.toList, e.2.connHdl = e.1

/-- Where connections expire, the order of the keys outlives it. -/
def HarmlessExpiry (s : RelayState Hdl) (event : RelayEvent Hdl M) : Prop :=
  ∀ gone, event = .expired gone → Harmless s.sockets.now gone s.sockets.keys

theorem RelayStep.sockets {relay : Relay M} {s s' : RelayState Hdl} {event : RelayEvent Hdl M}
    (step : RelayStep relay s event s') : s'.sockets = s.sockets ∨
      ∃ change, Step s.sockets change s'.sockets ∧
        ∀ gone, change = .expired gone → event = .expired gone := by
  cases step with
  | accept new fresh absent free => exact .inr ⟨_, .accept new absent free, by simp⟩
  | subscribed waits live handled entries => exact .inr ⟨_, .opened live entries, by simp⟩
  | closed entries => exact .inr ⟨_, .closed entries, by simp⟩
  | expired gone => exact .inr ⟨_, .expired gone, by simp⟩
  | stopped => exact .inr ⟨_, .stopped, by simp⟩
  | _ => exact .inl rfl

theorem RelayStep.sorted {relay : Relay M} {s s' : RelayState Hdl} {event : RelayEvent Hdl M}
    (step : RelayStep relay s event s') (harmless : HarmlessExpiry s event)
    (sorted : Sorted (connectionHdlCompare s.sockets.now) s.sockets.conn2slot.toList) :
    Sorted (connectionHdlCompare s'.sockets.now) s'.sockets.conn2slot.toList := by
  rcases step.sockets with same | ⟨change, sockets, expires⟩
  · rw [same]
    exact sorted
  · exact sockets.sorted (fun gone same => harmless gone (expires gone same)) sorted

omit [DecidableEq Hdl] in
/-- What an assignment leaves in the map and what it puts there. -/
theorem InOrder.assigned {s : RelayState Hdl} (order : InOrder s) {h : Hdl}
    (live : s.sockets.now.lock h ≠ none) (slot : Subscription Hdl) (e : Hdl × Subscription Hdl) :
    e ∈ s.sockets.conn2slot.assigned (connectionHdlCompare s.sockets.now) h slot ↔
      e = (h, slot) ∨ e ∈ s.sockets.conn2slot.toList ∧ e.1 ≠ h :=
  (SearchTree.sorted_assigned (compare_weak s.sockets.now) order.sorted (alone_of_live live) slot).2 e

omit [DecidableEq Hdl] in
/-- Closing one connection leaves the slot of any other that is there. -/
theorem InOrder.erased {s : RelayState Hdl} (order : InOrder s) {h other : Hdl}
    (live : s.sockets.now.lock other ≠ none) (different : other ≠ h) {slot : Subscription Hdl}
    (inside : (other, slot) ∈ s.sockets.conn2slot.toList) :
    (other, slot) ∈ s.sockets.conn2slot.erased (connectionHdlCompare s.sockets.now) h := by
  rw [SearchTree.erased_of_sorted (compare_weak s.sockets.now) order.sorted, List.mem_filter]
  refine ⟨inside, ?_⟩
  by_contra equivalent
  rw [Bool.not_eq_true, Bool.or_eq_false_iff] at equivalent
  exact different (alone_of_live live h equivalent.2 equivalent.1).symm

theorem InOrder.step {relay : Relay M} {s s' : RelayState Hdl} {event : RelayEvent Hdl M}
    (order : InOrder s) (harmless : HarmlessExpiry s event) (step : RelayStep relay s event s') :
    InOrder s' := by
  refine ⟨step.sorted harmless order.sorted, ?_⟩
  cases step with
  | @subscribed h query rule addMatch tree waits live handled entries =>
      intro e inside
      change e ∈ tree.toList at inside
      rw [entries, order.assigned live] at inside
      rcases inside with rfl | ⟨old, _⟩
      · rfl
      · exact order.keyed e old
  | @closed h tree entries =>
      intro e inside
      change e ∈ tree.toList at inside
      rw [entries] at inside
      exact order.keyed e ((SearchTree.erased_sublist (compare_weak s.sockets.now) _ h).subset inside)
  | stopped => simp [SearchTree.toList]
  | _ => exact order.keyed

theorem Kept.leave {s s' : RelayState Hdl} {rules : Hdl → Option Str} (kept : Kept s rules)
    {gone : Hdl → Bool} (slots : ∀ slot ∈ s.slots, gone slot.connHdl = false →
      rules slot.connHdl = some slot.rule → slot ∈ s'.slots) :
    Kept s' (Broker.step rules (.leave gone : Broker.Event Hdl Str Frame)) := by
  intro h rule member
  change (if gone h then none else rules h) = some rule at member
  cases leaves : gone h with
  | true =>
      rw [leaves] at member
      cases member
  | false =>
      rw [leaves] at member
      exact slots ⟨h, rule⟩ (kept h rule member) leaves member

theorem Kept.step {relay : Relay M} {s s' : RelayState Hdl} {event : RelayEvent Hdl M}
    {rules : Hdl → Option Str} (tracks : Tracks s rules) (order : InOrder s) (kept : Kept s rules)
    (step : RelayStep relay s event s') :
    Kept s' (Broker.step rules (brokerEvent relay s.registry event)) := by
  cases step with
  | @subscribed h query rule addMatch tree waits live handled entries =>
      rw [openFor_rule handled]
      intro other rule' member
      change (if h = other then some rule else rules other) = some rule' at member
      change _ ∈ tree.toList.map Prod.snd
      rw [entries]
      by_cases same : h = other
      · rw [if_pos same] at member
        cases member
        subst same
        exact List.mem_map_of_mem (f := Prod.snd) ((order.assigned live _ _).mpr (.inl rfl))
      · rw [if_neg same] at member
        obtain ⟨e, inside, slot⟩ := List.mem_map.mp (kept other rule' member)
        have name : e.1 = other := by rw [← order.keyed e inside, slot]
        rw [← slot]
        refine List.mem_map_of_mem ((order.assigned live _ e).mpr (.inr ⟨inside, ?_⟩))
        rw [name]
        exact Ne.symm same
  | refused waits handled without =>
      rw [openFor_refused handled without]
      exact kept.leave fun slot inside _ _ => inside
  | @closed h tree entries =>
      refine kept.leave fun slot inside stays member => ?_
      obtain ⟨e, there, rfl⟩ := List.mem_map.mp inside
      have name := order.keyed e there
      have isOpen : s.isOpen e.2.connHdl = true := (tracks.members _).mpr (by rw [member]; rfl)
      rw [name] at isOpen stays
      have live := Option.isSome_iff_ne_none.mp (Bool.and_eq_true_iff.mp isOpen).1
      change _ ∈ tree.toList.map Prod.snd
      rw [entries]
      exact List.mem_map_of_mem (f := Prod.snd) (order.erased live (of_decide_eq_false stays) there)
  | stopped => exact kept.leave fun slot inside stays _ => by cases stays
  | message here => exact kept
  | signal config ends called => exact kept
  | _ => exact kept.leave fun slot inside _ _ => inside

/-! ### Whole runs -/

omit [DecidableEq Hdl] in
theorem tracks_start (registry : InterfaceContext) :
    Tracks (RelayState.start registry : RelayState Hdl) (fun _ => none) where
  single := List.nodup_nil
  waits := fun _ _ _ inside => absurd inside List.not_mem_nil
  members := fun _ => by simp [RelayState.isOpen, RelayState.start, noConnections]
  own := fun _ inside => absurd inside List.not_mem_nil

section Runs

variable {relay : Relay M} {allowed : RelayState Hdl → RelayEvent Hdl M → Prop}
  {s final : RelayState Hdl} {events : List (RelayEvent Hdl M)} {rules : Hdl → Option Str}

theorem RelayRun.sends (run : RelayRun relay allowed s events final) (tracks : Tracks s rules) (h : Hdl) :
    ∃ out, final.sentTo h = s.sentTo h ++ out ∧
      out.Sublist (Broker.seen h (rules h) (history relay s.registry events)) := by
  induction run generalizing rules with
  | done s => exact ⟨[], (List.append_nil _).symm, .slnil⟩
  | step fits first others ih =>
      obtain ⟨now, sent, upTo, _⟩ := tracks.sends first h
      obtain ⟨later, sentLater, upToLater⟩ := ih (tracks.step first)
      refine ⟨now ++ later, by rw [sentLater, sent, List.append_assoc], ?_⟩
      rw [first.registry_eq] at upToLater
      exact upTo.append upToLater

theorem RelayRun.sends_exactly (run : RelayRun relay HarmlessExpiry s events final)
    (tracks : Tracks s rules) (order : InOrder s) (kept : Kept s rules) (h : Hdl) :
    final.sentTo h =
      s.sentTo h ++ Broker.seen h (rules h) (history relay s.registry events) := by
  induction run generalizing rules with
  | done s => exact (List.append_nil _).symm
  | step harmless first others ih =>
      obtain ⟨now, sent, _, exact⟩ := tracks.sends first h
      rw [ih (tracks.step first) (order.step harmless first) (Kept.step tracks order kept first), sent,
        exact kept, List.append_assoc, first.registry_eq]
      rfl

end Runs

end Relay

/-! ### A connection and a signal -/

/-- Objects without anything nested and without anything to escape. -/
def flatDump : Json → Except Str Str
  | .object members => do
      let fields ← members.mapM fun member =>
        match member.2 with
        | .null => .ok ("\"".toList ++ member.1 ++ "\":null".toList)
        | .string s => .ok ("\"".toList ++ member.1 ++ "\":\"".toList ++ s ++ "\"".toList)
        | _ => .error "not written here".toList
      .ok ("\x7b".toList ++ ",".toList.intercalate fields ++ "\x7d".toList)
  | _ => .error "not written here".toList

def lampRelay : Relay Dbus.Cursor where
  isMatch rule _ := rule = "type='signal'".toList
  config := {}
  fuel := 1
  dump := flatDump

def lampSignal : BusMessage Dbus.Cursor where
  header := {
    interfaceName := some "a.Lamp".toList
    memberName := some "Blown".toList
    sender := some ":1.7".toList
    path := some "/lamp".toList }
  body := Dbus.Cursor.start []

def blownRegistry : InterfaceContext :=
  InterfaceContext.addInterface {}
    (Interface.add { name := "a.Lamp".toList } ({ name := "Blown".toList } : Signal))

def lampEvents : List (RelayEvent Nat Dbus.Cursor) :=
  [.accept 0 1, .opened 0 "match=type%3D%27signal%27".toList (.ok ()),
    .signal lampSignal fun _ => Message2Json.bareEnv, .closed 0,
    .signal lampSignal fun _ => Message2Json.bareEnv]

/-- What the connection gets for the signal. -/
def lampFrame : Frame where
  opcode := .text
  payload := ("\x7b\"data\":null,\"destination\":null,\"interface\":\"a.Lamp\",\"member\":\"Blown\"," ++
    "\"path\":\"/lamp\",\"sender\":\":1.7\",\"type\":\"signal\"\x7d").toList

set_option maxRecDepth 20000 in
theorem lamp_runs : ∃ final, RelayRun lampRelay HarmlessExpiry (.start blownRegistry) lampEvents final ∧
    final.sentTo 0 = [lampFrame] := by
  have harmless : ∀ (s : RelayState Nat) (event : RelayEvent Nat Dbus.Cursor),
      (∀ gone, event ≠ .expired gone) → HarmlessExpiry s event :=
    fun s event other gone same => absurd same (other gone)
  have ends : Ends (relayed Message2Json.bareEnv lampRelay.fuel blownRegistry lampSignal) := .ok _
  have opens := fun s waits live handled entries => @RelayStep.subscribed _ _ _ _ lampRelay s 0
    "match=type%3D%27signal%27".toList "type='signal'".toList (.ok ())
    (.node .leaf (0, ⟨0, "type='signal'".toList⟩) .leaf) waits live handled entries
  have closes := fun s entries => @RelayStep.closed _ _ _ _ lampRelay s 0 .leaf entries
  exact ⟨_,
    .step (harmless _ _ (by simp))
      (.accept (by decide) (by decide) rfl (fun other there => by cases there)) <|
    .step (harmless _ _ (by simp)) (opens _ rfl (by decide) rfl rfl) <|
    .step (harmless _ _ (by simp)) (.signal (fun _ => rfl) (fun _ => ends) (.refl _)) <|
    .step (harmless _ _ (by simp)) (closes _ rfl) <|
    .step (harmless _ _ (by simp)) (.signal (fun _ => rfl) (fun _ => ends) (.refl _)) <| .done _, rfl⟩

end Dbus2Http.SignalSocket

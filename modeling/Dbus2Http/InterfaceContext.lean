import Dbus2Http.Entities

set_option autoImplicit false

namespace Dbus2Http

open Cxx (Str Run throwExn)

/-- Every member function holds the mutex, so each of them is one atomic step. -/
structure InterfaceContext where
  objectPaths : OrderedMap Str (OrderedMap Str ObjectPath) := .empty
  interfaces : OrderedMap Str Interface := .empty

namespace InterfaceContext

def addInterface (context : InterfaceContext) (interface : Interface) : InterfaceContext :=
  { context with interfaces := context.interfaces.insert interface.name interface }

/-- `object_paths[service_name]` creates the inner map when there is none. -/
def addObjectPath (context : InterfaceContext) (serviceName : Str) (objectPath : ObjectPath) :
    InterfaceContext :=
  let stored := (context.objectPaths.find? serviceName).getD .empty
  { context with
    objectPaths := context.objectPaths.insert serviceName (stored.insert objectPath.path objectPath) }

/-- `at` raises where there is no such key. -/
def getInterfaces (context : InterfaceContext) (interfaceName : Str) : Run Interface :=
  match context.interfaces.find? interfaceName with
  | some interface => .ok interface
  | none => throwExn .outOfRange "map::at".toList

def getObjectPath (context : InterfaceContext) (serviceName pathString : Str) : Run ObjectPath :=
  match context.objectPaths.find? serviceName with
  | some stored =>
      match stored.find? pathString with
      | some object => .ok object
      | none => throwExn .outOfRange "map::at".toList
  | none => throwExn .outOfRange "map::at".toList

def getServiceNames (context : InterfaceContext) : List Str := context.objectPaths.keys

def containsService (context : InterfaceContext) (serviceName : Str) : Bool :=
  context.objectPaths.contains serviceName

def containsInterface (context : InterfaceContext) (interfaceName : Str) : Bool :=
  context.interfaces.contains interfaceName

def getObjectPathString (context : InterfaceContext) (serviceName : Str) : List Str :=
  match context.objectPaths.find? serviceName with
  | some stored => stored.keys
  | none => []

def objectPathsOfService (context : InterfaceContext) (serviceName : Str) :
    Run (OrderedMap Str ObjectPath) :=
  match context.objectPaths.find? serviceName with
  | some stored => .ok stored
  | none => throwExn .invalidArgument ("service not found: ".toList ++ serviceName)

def get {T : Type} [Member T] (context : InterfaceContext) (interfaceName memberName : Str) : Run T :=
  match context.interfaces.find? interfaceName with
  | some interface => interface.get memberName
  | none => throwExn .invalidArgument ("interface not found: ".toList ++ interfaceName)

/-- The entry `object_paths[serviceName][path]`, when there is one. -/
def object? (context : InterfaceContext) (serviceName path : Str) : Option ObjectPath :=
  (context.objectPaths.find? serviceName).bind (·.find? path)

/-! ### What each `add` changes -/

section Adds

variable (context : InterfaceContext) (service : Str) (object : ObjectPath) (interface : Interface)

@[simp] theorem objectPaths_addInterface :
    (context.addInterface interface).objectPaths = context.objectPaths := rfl

@[simp] theorem interfaces_addInterface :
    (context.addInterface interface).interfaces =
      context.interfaces.insert interface.name interface := rfl

@[simp] theorem interfaces_addObjectPath :
    (context.addObjectPath service object).interfaces = context.interfaces := rfl

@[simp] theorem object?_addInterface (wanted path : Str) :
    (context.addInterface interface).object? wanted path = context.object? wanted path := rfl

theorem find?_addObjectPath_of_ne {wanted : Str} (different : wanted ≠ service) :
    (context.addObjectPath service object).objectPaths.find? wanted =
      context.objectPaths.find? wanted :=
  OrderedMap.find?_insert_of_ne _ different _

/-- Adding an object sets its own entry and no other one. -/
theorem object?_addObjectPath (wanted path : Str) :
    (context.addObjectPath service object).object? wanted path =
      if wanted = service ∧ path = object.path then some object else context.object? wanted path := by
  by_cases same : wanted = service
  · subst same
    have stored : (context.addObjectPath wanted object).object? wanted path =
        (((context.objectPaths.find? wanted).getD .empty).insert object.path object).find? path := by
      simp [object?, addObjectPath]
    rw [stored, OrderedMap.find?_insert]
    by_cases equal : path = object.path
    · simp [equal]
    · have kept : ((context.objectPaths.find? wanted).getD .empty).find? path =
          context.object? wanted path := by
        cases found : context.objectPaths.find? wanted <;> simp [object?, found]
      simp [equal, kept]
  · have kept := find?_addObjectPath_of_ne context service object same
    simp [object?, kept, same]

theorem get_addInterface {T : Type} [Member T] (interfaceName memberName : Str) :
    (context.addInterface interface).get (T := T) interfaceName memberName =
      if interfaceName = interface.name then interface.get memberName
      else context.get interfaceName memberName := by
  rw [get, interfaces_addInterface, OrderedMap.find?_insert]
  by_cases same : interfaceName = interface.name
  · simp only [if_pos same]
  · simp only [if_neg same]
    rfl

theorem containsService_addObjectPath (wanted : Str) :
    (context.addObjectPath service object).containsService wanted = true ↔
      wanted = service ∨ context.containsService wanted = true := by
  simp [containsService, addObjectPath, OrderedMap.contains_insert]

end Adds

theorem mem_getObjectPathString (context : InterfaceContext) (service path : Str) :
    path ∈ context.getObjectPathString service ↔ (context.object? service path).isSome := by
  rw [getObjectPathString, object?]
  cases context.objectPaths.find? service with
  | none => simp
  | some stored => exact OrderedMap.mem_keys_iff stored path

/-! ### Which reads return -/

section Reads

theorem get_eq_ok {T : Type} [Member T] {context : InterfaceContext}
    {interfaceName memberName : Str} {member : T} :
    context.get interfaceName memberName = .ok member ↔
      ∃ interface, context.interfaces.find? interfaceName = some interface ∧
        (Member.container interface).find? memberName = some member := by
  rw [get]
  cases context.interfaces.find? interfaceName with
  | none => simp
  | some interface => simp [Interface.get_eq_ok]

variable {context : InterfaceContext} {name service path : Str}

theorem getInterfaces_of_contains (present : context.containsInterface name = true) :
    ∃ interface, context.getInterfaces name = .ok interface := by
  rw [containsInterface, OrderedMap.contains] at present
  obtain ⟨interface, found⟩ := Option.isSome_iff_exists.mp present
  exact ⟨interface, by rw [getInterfaces, found]⟩

theorem objectPathsOfService_of_contains (present : context.containsService service = true) :
    ∃ stored, context.objectPathsOfService service = .ok stored := by
  rw [containsService, OrderedMap.contains] at present
  obtain ⟨stored, found⟩ := Option.isSome_iff_exists.mp present
  exact ⟨stored, by rw [objectPathsOfService, found]⟩

theorem getObjectPath_of_isSome (present : (context.object? service path).isSome) :
    ∃ object, context.getObjectPath service path = .ok object := by
  obtain ⟨object, found⟩ := Option.isSome_iff_exists.mp present
  rw [object?, Option.bind_eq_some_iff] at found
  obtain ⟨stored, ofService, inside⟩ := found
  exact ⟨object, by simp only [getObjectPath, ofService, inside]⟩

theorem object?_of_getObjectPath {object : ObjectPath}
    (read : context.getObjectPath service path = .ok object) :
    context.object? service path = some object := by
  obtain ⟨stored, found⟩ : ∃ stored, context.objectPaths.find? service = some stored := by
    cases ofService : context.objectPaths.find? service with
    | none => simp [getObjectPath, ofService, throwExn] at read
    | some stored => exact ⟨stored, rfl⟩
  rw [getObjectPath, found] at read
  rw [object?, found, Option.bind_some]
  cases inside : stored.find? path with
  | none => simp [inside, throwExn] at read
  | some other => simpa [inside] using read

end Reads

end InterfaceContext

end Dbus2Http

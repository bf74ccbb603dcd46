import Dbus2Http.Entities
import Dbus2Http.JsonValue
import Dbus2Http.MessageCursor
import Dbus2Http.SignaturePieces

set_option autoImplicit false

namespace Dbus2Http

structure Config where
  systemBus : Bool := true
  binarySupport : Bool := false
  maxFileDescriptorSize : Nat := 10 * 1024 * 1024

namespace Message2Json

open Cxx (Str Run Forward throwExn orThrow substr substrFrom charAt cStr)
open Dbus (IntTy Basic Value ContainerKind MessageReader Follows)

/-! ### What an extraction depends on besides the message -/

/-- What one `::read` on a descriptor returns. -/
inductive ReadResult
  | bytes (chunk : List UInt8) (some : chunk ≠ [])
  | endOfFile
  | interrupted
  | failed (error : Str)

/-- A variable that nothing was read into holds whatever it holds. The reads on a
descriptor are numbered; on the number of no descriptor they fail. -/
structure Env where
  config : Config
  unsetBool : Bool
  unsetInt : (t : IntTy) → t.Val
  unsetDouble : Float
  reads : Int → Nat → ReadResult
  noDescriptor : reads (-1) 0 = .failed "Bad file descriptor".toList

/-- Where no descriptor can be read. -/
def bareEnv : Env where
  config := {}
  unsetBool := false
  unsetInt t := t.wrap 0
  unsetDouble := 0
  reads _ _ := .failed "Bad file descriptor".toList
  noDescriptor := rfl

/-! ### The message -/

variable {M : Type} [MessageReader M]

/-- The contents are passed as a C string. -/
def enterContainer (kind : ContainerKind) (message : M) (contents : Str) : Run M :=
  orThrow .busError (MessageReader.enterContainer kind message (cStr contents))

def exitContainer (kind : ContainerKind) (message : M) : Run M :=
  orThrow .busError (MessageReader.exitContainer kind message)

/-! ### Basic values -/

/-- An integer is stored by the signedness of its C++ type. -/
def ofInt (t : IntTy) (n : t.Val) : Json :=
  if t.signed then .integer (IntTy.int64.wrap n.val) else .unsigned (IntTy.uint64.wrap n.val)

def ofBasic : Value → Json
  | .bool b => .bool b
  | .int t n => ofInt t n
  | .double d => .float d
  | .string s => .string s.val
  | _ => .null

def Env.unset (env : Env) : Basic → Json
  | .bool => .bool env.unsetBool
  | .int t => ofInt t (env.unsetInt t)
  | .double => .float env.unsetDouble
  | _ => .string []

/-- The variable after `message >> variable`. -/
def Env.variable (env : Env) (b : Basic) (answer : Option Value) : Json :=
  (answer.map ofBasic).getD (env.unset b)

/-- A stream fails on a null pointer and drops the rest of the text. -/
def readErrorText (peek : Char × Option Str) : Str :=
  "Failed to get type from message. peek type: '".toList ++ [peek.1] ++ "' \"".toList ++
    match peek.2 with
    | some contents => contents ++ "\" what: ".toList
    | none => []

/-- `read<T>` -/
def read (env : Env) (b : Basic) (message : M) : Run (Json × M) :=
  match MessageReader.read message b with
  | some (answer, message) => .ok (env.variable b answer, message)
  | none => throwExn .runtimeError (readErrorText (MessageReader.peekType message))

def extractBool (env : Env) (message : M) : Run (Json × M) := do
  let (answer, message) ← orThrow .busError (MessageReader.read message .bool)
  .ok (env.variable .bool answer, message)

/-! ### Descriptors -/

/-- The loop over `::read`. -/
def readDescriptor (env : Env) (fd : Int) : Nat → Nat → List UInt8 → Run (List UInt8)
  | 0, _, _ => .error .outOfFuel
  | fuel + 1, i, binaries =>
      match env.reads fd i with
      | .bytes chunk _ =>
          if env.config.maxFileDescriptorSize < (binaries ++ chunk).length then
            throwExn .runtimeError "File descriptor data exceeds 10MB limit".toList
          else readDescriptor env fd fuel (i + 1) (binaries ++ chunk)
      | .endOfFile => .ok binaries
      | .interrupted => throwExn .runtimeError "read() interrupted by signal".toList
      | .failed error => throwExn .runtimeError ("read() failed: ".toList ++ error)

/-- A descriptor that was not read into is the number of none. -/
def descriptor : Option Value → Int
  | some (.unixFd fd) => fd
  | _ => -1

/-- Each round reads at least one byte, so this much fuel suffices;
`readDescriptor_ends` says so. -/
def extractUnixFd (env : Env) (message : M) : Run (Json × M) := do
  let (answer, message) ← orThrow .busError (MessageReader.read message .unixFd)
  let binaries ← readDescriptor env (descriptor answer) (env.config.maxFileDescriptorSize + 1) 0 []
  .ok (.binary binaries, message)

theorem readDescriptor_ends (env : Env) (fd : Int) (fuel i : Nat) (binaries : List UInt8)
    (enough : env.config.maxFileDescriptorSize < fuel + binaries.length)
    (small : binaries.length ≤ env.config.maxFileDescriptorSize) :
    readDescriptor env fd fuel i binaries ≠ .error .outOfFuel := by
  induction fuel generalizing i binaries with
  | zero => omega
  | succ fuel ih =>
      unfold readDescriptor
      split
      · rename_i chunk some _
        have grown : 0 < chunk.length := List.length_pos_iff.mpr some
        split
        · simp [throwExn]
        · rename_i fits
          apply ih
          · rw [List.length_append]
            omega
          · omega
      · simp
      · simp [throwExn]
      · simp [throwExn]

/-! ### One call, given what the calls inside it do -/

/-- What `ExtractMessage` does with a message and a signature. -/
abbrev Extractor (M : Type) := M → Str → Run (Json × M)

def extractVariant (extract : Extractor M) (message : M) : Run (Json × M) :=
  let (sig, elementSig?) := MessageReader.peekType message
  if sig = 'v' then
    match elementSig? with
    | some elementSig => do
        let message ← enterContainer .variant message elementSig
        let (value, message) ← extract message elementSig
        let message ← exitContainer .variant message
        .ok (.object [("value".toList, value), ("variant".toList, .string elementSig)], message)
    | none => throwExn .invalidArgument "Variant has NULL element type".toList
  else throwExn .invalidArgument ("Expected variant type but got ".toList ++ [sig])

def extractStruct (extract : Extractor M) (message : M) (sig : Str) : Run (Json × M) := do
  let elementSig ← substr sig 1 (sig.length - 2)
  let message ← enterContainer .struct message elementSig
  let (j, message) ← extract message elementSig
  let message ← exitContainer .struct message
  .ok (j, message)

/-- The loop over the entries of a dict. -/
def extractEntries (extract : Extractor M) (elementSig : Str) :
    Nat → M → Json → Run (Json × M)
  | 0, _, _ => .error .outOfFuel
  | fuel + 1, message, result => do
      let message ← enterContainer .dictEntry message elementSig
      if MessageReader.good message then do
        let keySig ← substr elementSig 0 1
        let (key, message) ← extract message keySig
        let valueSig ← substrFrom elementSig 1
        let (value, message) ← extract message valueSig
        let result ← result.setMember key.keyText value
        let message ← exitContainer .dictEntry message
        extractEntries extract elementSig fuel message result
      else .ok (result, message)

/-- The loop over the structs of an array. -/
def extractStructs (extract : Extractor M) (elementSig : Str) :
    Nat → M → List Json → Run (List Json × M)
  | 0, _, _ => .error .outOfFuel
  | fuel + 1, message, result => do
      let message ← enterContainer .struct message elementSig
      if MessageReader.good message then do
        let (value, message) ← extract message elementSig
        if MessageReader.good message then do
          let message ← exitContainer .struct message
          extractStructs extract elementSig fuel message (result ++ [value])
        else .ok (result, message)
      else .ok (result, message)

/-- The loop over the bytes of an array. -/
def extractBytes (env : Env) : Nat → M → List UInt8 → Run (List UInt8 × M)
  | 0, _, _ => .error .outOfFuel
  | fuel + 1, message, binaries => do
      let (y, message) ← read env (.int .byte) message
      if MessageReader.good message then
        extractBytes env fuel message (binaries ++ [UInt8.ofInt (y.asInteger?.getD 0)])
      else .ok (binaries, message)

/-- The loop over the elements of any other array: it asks for one more than there
are, and the flag tells that there was none. -/
def extractElements (extract : Extractor M) (elementSig : Str) :
    Nat → M → List Json → Run (List Json × M)
  | 0, _, _ => .error .outOfFuel
  | fuel + 1, message, result => do
      let (value, message) ← extract message elementSig
      if MessageReader.good message then
        extractElements extract elementSig fuel message (result ++ [value])
      else .ok (result, message)

def extractDict (fuel : Nat) (extract : Extractor M) (message : M) (sig : Str) :
    Run (Json × M) := do
  let arraySig ← substrFrom sig 1
  let elementSig ← substr arraySig 1 (arraySig.length - 2)
  let message ← enterContainer .array message arraySig
  let (result, message) ← extractEntries extract elementSig fuel message .null
  let message ← exitContainer .array (MessageReader.clearFlags message)
  .ok (result, message)

def extractStructArray (fuel : Nat) (extract : Extractor M) (message : M) (sig : Str) :
    Run (Json × M) := do
  let arraySig ← substrFrom sig 1
  let elementSig ← substr arraySig 1 (arraySig.length - 2)
  let message ← enterContainer .array message arraySig
  let (result, message) ← extractStructs extract elementSig fuel message []
  let message ← exitContainer .array (MessageReader.clearFlags message)
  .ok (.array result, message)

def extractByteArray (env : Env) (fuel : Nat) (message : M) : Run (Json × M) := do
  let message ← enterContainer .array message "y".toList
  let (binaries, message) ← extractBytes env fuel message []
  let message ← exitContainer .array (MessageReader.clearFlags message)
  .ok (.binary binaries, message)

def extractPlainArray (fuel : Nat) (extract : Extractor M) (message : M) (sig : Str) :
    Run (Json × M) := do
  let elementSig ← substrFrom sig 1
  let message ← enterContainer .array message elementSig
  let (result, message) ← extractElements extract elementSig fuel message []
  let message ← exitContainer .array (MessageReader.clearFlags message)
  .ok (.array result, message)

def extractArray (env : Env) (fuel : Nat) (extract : Extractor M) (message : M) (sig : Str) :
    Run (Json × M) :=
  if charAt sig 1 = '{' then extractDict fuel extract message sig
  else if charAt sig 1 = '(' then extractStructArray fuel extract message sig
  else if sig = "ay".toList ∧ env.config.binarySupport = true then extractByteArray env fuel message
  else extractPlainArray fuel extract message sig

/-- The switch on the first code. -/
def extractPiece (env : Env) (fuel : Nat) (extract : Extractor M) (message : M) (sig : Str) :
    Run (Json × M) :=
  match charAt sig 0 with
  | 'b' => extractBool env message
  | 'y' => read env (.int .byte) message
  | 'n' => read env (.int .int16) message
  | 'q' => read env (.int .uint16) message
  | 'i' => read env (.int .int32) message
  | 'u' => read env (.int .uint32) message
  | 'x' => read env (.int .int64) message
  | 't' => read env (.int .uint64) message
  | 'd' => read env .double message
  | 's' => read env .string message
  | 'v' => extractVariant extract message
  | '(' => extractStruct extract message sig
  | 'a' => extractArray env fuel extract message sig
  | 'h' => extractUnixFd env message
  | '\x00' | 'r' | 'e' | 'o' | 'g' | 'm' | '*' | '?' | '@' | '&' | '^' =>
      throwExn .invalidArgument ("Unsupported signature: ".toList ++ sig)
  | _ => throwExn .invalidArgument ("Unknown signature: ".toList ++ sig)

def extractNext (extract : Extractor M) (state : List Json × M) (s : Str) :
    Run (List Json × M) := do
  let (value, message) ← extract state.2 s
  .ok (state.1 ++ [value], message)

def extractCall (env : Env) (fuel : Nat) (extract : Extractor M) : Extractor M :=
  fun message sig => do
    let completeSigs ← SignatureUtils.split sig
    if 1 < completeSigs.length then do
      let (result, message) ← completeSigs.foldlM (extractNext extract) ([], message)
      .ok (.array result, message)
    else extractPiece env fuel extract message sig

/-! ### The recursion -/

/-- How often the loops run is up to the message, so they share the fuel. -/
def extractMessage (env : Env) : Nat → Extractor M
  | 0 => fun _ _ => .error .outOfFuel
  | fuel + 1 => extractCall env fuel (extractMessage env fuel)

/-- The argument at this point: an argument without a name is numbered. -/
def extractArgument (env : Env) (fuel : Nat) (state : Json × Nat × M) (arg : Argument) :
    Run (Json × Nat × M) := do
  let (result, i, message) := state
  let (name, i) := if arg.name = [] then ("arg".toList ++ Cxx.toDecimal i, i + 1) else (arg.name, i)
  let (value, message) ← extractMessage env fuel message arg.type
  let result ← result.setMember name value
  .ok (result, i, message)

/-- The overload for the arguments of a method. -/
def extractArguments (env : Env) (fuel : Nat) (message : M) (args : List Argument) :
    Run (Json × M) := do
  let (result, _, message) ← args.foldlM (extractArgument env fuel) (.null, 0, message)
  .ok (result, message)

/-- Whether a value at any depth is binary. -/
def containsBinaries : Json → Bool
  | .binary _ => true
  | .array items => itemsContain items
  | .object members => membersContain members
  | _ => false
where
  itemsContain : List Json → Bool
    | [] => false
    | item :: rest => containsBinaries item || itemsContain rest
  membersContain : List (Str × Json) → Bool
    | [] => false
    | (_, value) :: rest => containsBinaries value || membersContain rest

/-! ### A message that follows another is extracted alike -/

section Follows

variable {N : Type} [MessageReader N] {R : M → N → Prop} {α : Type}

/-- The same result, and messages that are related. -/
def Same (R : M → N → Prop) (first : α × M) (second : α × N) : Prop :=
  first.1 = second.1 ∧ R first.2 second.2

def ForwardAll (R : M → N → Prop) (extract : Extractor M) (extract' : Extractor N) : Prop :=
  ∀ {m n}, R m n → ∀ sig, Forward (Same R) (extract m sig) (extract' n sig)

omit [MessageReader M] [MessageReader N] in
theorem same_bind {β : Type} {first : Run (α × M)} {second : Run (α × N)}
    {next : α × M → Run (β × M)} {next' : α × N → Run (β × N)}
    (forward : Forward (Same R) first second)
    (continued : ∀ a m n, R m n → Forward (Same R) (next (a, m)) (next' (a, n))) :
    Forward (Same R) (first >>= next) (second >>= next') := by
  apply forward.bind
  rintro ⟨a, m⟩ ⟨a', n⟩ ⟨rfl, related⟩
  exact continued a m n related

omit [MessageReader M] [MessageReader N] in
theorem same_ok {a : α} {m : M} {n : N} (related : R m n) :
    Forward (Same R) (.ok (a, m)) (.ok (a, n)) :=
  .ok ⟨rfl, related⟩

variable (follows : Follows R) {m : M} {n : N}

include follows

theorem enterContainer_forward (related : R m n) (kind : ContainerKind) (contents : Str) :
    Forward R (enterContainer kind m contents) (enterContainer kind n contents) :=
  .orThrow _ fun _ done => follows.enterContainer related done

theorem exitContainer_forward (related : R m n) (kind : ContainerKind) :
    Forward R (exitContainer kind m) (exitContainer kind n) :=
  .orThrow _ fun _ done => follows.exitContainer related done

theorem orThrow_read_forward (related : R m n) (b : Basic) :
    Forward (Same R) (orThrow .busError (MessageReader.read m b))
      (orThrow .busError (MessageReader.read n b)) := by
  apply Forward.orThrow
  rintro ⟨answer, m'⟩ done
  obtain ⟨n', there, related'⟩ := follows.read related done
  exact ⟨(answer, n'), there, rfl, related'⟩

theorem read_forward (env : Env) (b : Basic) (related : R m n) :
    Forward (Same R) (read env b m) (read env b n) := by
  unfold read
  cases here : MessageReader.read m b with
  | none => exact .error _ _
  | some result =>
      obtain ⟨n', there, related'⟩ := follows.read related here
      rw [there]
      exact same_ok related'

theorem extractBool_forward (env : Env) (related : R m n) :
    Forward (Same R) (extractBool env m) (extractBool env n) := by
  apply same_bind (orThrow_read_forward follows related .bool)
  intro answer m n related
  exact same_ok related

theorem extractUnixFd_forward (env : Env) (related : R m n) :
    Forward (Same R) (extractUnixFd env m) (extractUnixFd env n) := by
  apply same_bind (orThrow_read_forward follows related .unixFd)
  intro answer m n related
  apply Forward.bind_same
  intro binaries
  exact same_ok related

variable {extract : Extractor M} {extract' : Extractor N}

theorem extractVariant_forward (inner : ForwardAll R extract extract') (related : R m n) :
    Forward (Same R) (extractVariant extract m) (extractVariant extract' n) := by
  unfold extractVariant
  by_cases variant : (MessageReader.peekType m).1 = 'v'
  · rw [← follows.peekType related variant]
    simp only [variant, ↓reduceIte]
    cases (MessageReader.peekType m).2 with
    | none => exact .error _ _
    | some elementSig =>
        apply (enterContainer_forward follows related _ _).bind
        intro m n related
        apply same_bind (inner related _)
        intro value m n related
        apply (exitContainer_forward follows related _).bind
        intro m n related
        exact same_ok related
  · simp only [variant, ↓reduceIte]
    exact .error _ _

theorem extractStruct_forward (inner : ForwardAll R extract extract') (related : R m n) (sig : Str) :
    Forward (Same R) (extractStruct extract m sig) (extractStruct extract' n sig) := by
  apply Forward.bind_same
  intro elementSig
  apply (enterContainer_forward follows related _ _).bind
  intro m n related
  apply same_bind (inner related _)
  intro j m n related
  apply (exitContainer_forward follows related _).bind
  intro m n related
  exact same_ok related

theorem extractEntries_forward (inner : ForwardAll R extract extract') (elementSig : Str)
    {fuel more : Nat} (le : fuel ≤ more) (related : R m n) (result : Json) :
    Forward (Same R) (extractEntries extract elementSig fuel m result)
      (extractEntries extract' elementSig more n result) := by
  induction fuel generalizing more m n result with
  | zero => exact .error _ _
  | succ fuel ih =>
      obtain ⟨more, rfl⟩ := Nat.exists_eq_succ_of_ne_zero (show more ≠ 0 by omega)
      apply (enterContainer_forward follows related _ _).bind
      intro m n related
      rw [← follows.good related]
      split
      · apply Forward.bind_same
        intro keySig
        apply same_bind (inner related _)
        intro key m n related
        apply Forward.bind_same
        intro valueSig
        apply same_bind (inner related _)
        intro value m n related
        apply Forward.bind_same
        intro result
        apply (exitContainer_forward follows related _).bind
        intro m n related
        exact ih (Nat.le_of_succ_le_succ le) related result
      · exact same_ok related

theorem extractStructs_forward (inner : ForwardAll R extract extract') (elementSig : Str)
    {fuel more : Nat} (le : fuel ≤ more) (related : R m n) (result : List Json) :
    Forward (Same R) (extractStructs extract elementSig fuel m result)
      (extractStructs extract' elementSig more n result) := by
  induction fuel generalizing more m n result with
  | zero => exact .error _ _
  | succ fuel ih =>
      obtain ⟨more, rfl⟩ := Nat.exists_eq_succ_of_ne_zero (show more ≠ 0 by omega)
      apply (enterContainer_forward follows related _ _).bind
      intro m n related
      rw [← follows.good related]
      split
      · apply same_bind (inner related _)
        intro value m n related
        simp only [← follows.good related]
        split
        · apply (exitContainer_forward follows related _).bind
          intro m n related
          exact ih (Nat.le_of_succ_le_succ le) related _
        · exact same_ok related
      · exact same_ok related

theorem extractBytes_forward (env : Env) {fuel more : Nat} (le : fuel ≤ more) (related : R m n)
    (binaries : List UInt8) :
    Forward (Same R) (extractBytes env fuel m binaries) (extractBytes env more n binaries) := by
  induction fuel generalizing more m n binaries with
  | zero => exact .error _ _
  | succ fuel ih =>
      obtain ⟨more, rfl⟩ := Nat.exists_eq_succ_of_ne_zero (show more ≠ 0 by omega)
      apply same_bind (read_forward follows env _ related)
      intro y m n related
      simp only [← follows.good related]
      split
      · exact ih (Nat.le_of_succ_le_succ le) related _
      · exact same_ok related

theorem extractElements_forward (inner : ForwardAll R extract extract') (elementSig : Str)
    {fuel more : Nat} (le : fuel ≤ more) (related : R m n) (result : List Json) :
    Forward (Same R) (extractElements extract elementSig fuel m result)
      (extractElements extract' elementSig more n result) := by
  induction fuel generalizing more m n result with
  | zero => exact .error _ _
  | succ fuel ih =>
      obtain ⟨more, rfl⟩ := Nat.exists_eq_succ_of_ne_zero (show more ≠ 0 by omega)
      apply same_bind (inner related _)
      intro value m n related
      simp only [← follows.good related]
      split
      · exact ih (Nat.le_of_succ_le_succ le) related _
      · exact same_ok related

/-- What every array does after its loop. -/
theorem leaveArray_forward {β : Type} (json : β → Json) {first : Run (β × M)}
    {second : Run (β × N)} (forward : Forward (Same R) first second) :
    Forward (Same R)
      (first >>= fun result => exitContainer .array (MessageReader.clearFlags result.2) >>=
        fun message => .ok (json result.1, message))
      (second >>= fun result => exitContainer .array (MessageReader.clearFlags result.2) >>=
        fun message => .ok (json result.1, message)) := by
  apply same_bind forward
  intro result m n related
  apply (exitContainer_forward follows (follows.clearFlags related) _).bind
  intro m n related
  exact same_ok related

theorem extractArray_forward (env : Env) (inner : ForwardAll R extract extract') {fuel more : Nat}
    (le : fuel ≤ more) (related : R m n) (sig : Str) :
    Forward (Same R) (extractArray env fuel extract m sig) (extractArray env more extract' n sig) := by
  unfold extractArray
  split
  · apply Forward.bind_same
    intro arraySig
    apply Forward.bind_same
    intro elementSig
    apply (enterContainer_forward follows related _ _).bind
    intro m n related
    exact leaveArray_forward follows id
      (extractEntries_forward follows inner elementSig le related .null)
  split
  · apply Forward.bind_same
    intro arraySig
    apply Forward.bind_same
    intro elementSig
    apply (enterContainer_forward follows related _ _).bind
    intro m n related
    exact leaveArray_forward follows Json.array
      (extractStructs_forward follows inner elementSig le related [])
  split
  · apply (enterContainer_forward follows related _ _).bind
    intro m n related
    exact leaveArray_forward follows Json.binary (extractBytes_forward follows env le related [])
  · apply Forward.bind_same
    intro elementSig
    apply (enterContainer_forward follows related _ _).bind
    intro m n related
    exact leaveArray_forward follows Json.array
      (extractElements_forward follows inner elementSig le related [])

theorem extractPiece_forward (env : Env) (inner : ForwardAll R extract extract') {fuel more : Nat}
    (le : fuel ≤ more) (related : R m n) (sig : Str) :
    Forward (Same R) (extractPiece env fuel extract m sig) (extractPiece env more extract' n sig) := by
  unfold extractPiece
  split
  · exact extractBool_forward follows env related
  iterate 9 exact read_forward follows env _ related
  · exact extractVariant_forward follows inner related
  · exact extractStruct_forward follows inner related sig
  · exact extractArray_forward follows env inner le related sig
  · exact extractUnixFd_forward follows env related
  all_goals exact .error _ _

omit [MessageReader M] [MessageReader N] follows in
theorem extractPieces_forward (inner : ForwardAll R extract extract') (sigs : List Str)
    (result : List Json) (related : R m n) :
    Forward (Same R) (sigs.foldlM (extractNext extract) (result, m))
      (sigs.foldlM (extractNext extract') (result, n)) := by
  induction sigs generalizing m n result with
  | nil => exact same_ok related
  | cons s sigs ih =>
      rw [List.foldlM_cons, List.foldlM_cons]
      apply same_bind
      · apply same_bind (inner related s)
        intro value m n related
        exact same_ok related
      · intro result m n related
        exact ih result related

/-- What returns with some fuel returns the same with more, on every message that
follows. -/
theorem extractMessage_forward (env : Env) {fuel more : Nat} (le : fuel ≤ more) :
    ForwardAll R (extractMessage env fuel) (extractMessage env more) := by
  induction fuel generalizing more with
  | zero =>
      intro m n related sig
      exact .error _ _
  | succ fuel ih =>
      obtain ⟨more, rfl⟩ := Nat.exists_eq_succ_of_ne_zero (show more ≠ 0 by omega)
      intro m n related sig
      have inner : ForwardAll R (extractMessage env fuel) (extractMessage env more) :=
        ih (Nat.le_of_succ_le_succ le)
      apply Forward.bind_same
      intro completeSigs
      split
      · apply same_bind (extractPieces_forward inner completeSigs [] related)
        intro result m n related
        exact same_ok related
      · exact extractPiece_forward follows env inner (Nat.le_of_succ_le_succ le) related sig

end Follows

end Message2Json

end Dbus2Http

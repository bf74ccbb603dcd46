import Dbus2Http.Message2Json

set_option autoImplicit false

namespace Dbus2Http.Message2Json

open Cxx (Str Run Settles orThrow_eq_ok charAt cStr)
open Dbus (IntTy Basic Ty Value Cursor ReadFrame ContainerKind MessageReader LawfulReader Follows Embeds)
open SignatureUtils (Splits cStr_text cStr_texts substrFrom_array substr_struct substr_entry substr_key
  substrFrom_key)

/-! ### What is read -/

/-- With enough fuel the call returns this value and leaves the message like that. -/
def Extracts {M : Type} [MessageReader M] (env : Env) (m : M) (sig : Str) (json : Json) (m' : M) :
    Prop :=
  Settles (fun fuel => extractMessage env fuel m sig) (.ok (json, m'))

/-- A message of its own that holds these values is read to the end. -/
def Reads (env : Env) (vs : List Value) (json : Json) : Prop :=
  Extracts env (Cursor.start vs) (Ty.texts (vs.map Value.typeOf)) json (Cursor.start [])

/-- With this fuel the values are read wherever they stand, and nothing after them. -/
def ReadsAt (env : Env) (fuel : Nat) (vs : List Value) (json : Json) : Prop :=
  ∀ (c : Cursor) (rest : List Value), c.good = true → c.top.rest = vs ++ rest →
    extractMessage env fuel c (Ty.texts (vs.map Value.typeOf)) = .ok (json, c.withRest rest)

theorem extracts_of_ok {M : Type} [MessageReader M] {env : Env} {fuel : Nat} {m m' : M} {sig : Str}
    {json : Json} (done : extractMessage env fuel m sig = .ok (json, m')) :
    Extracts env m sig json m' := by
  refine ⟨fuel, fun more le => ?_⟩
  obtain ⟨⟨json', n'⟩, there, same, same'⟩ :=
    extractMessage_forward (Dbus.follows_self M) env le rfl sig _ done
  simp only at same same'
  change extractMessage env more m sig = _
  rw [there, same, same']

/-- What one message yields, every message that follows it yields. -/
theorem Extracts.follows {M N : Type} [MessageReader M] [MessageReader N] {R : M → N → Prop}
    (follows : Follows R) {env : Env} {m m' : M} {n : N} {sig : Str} {json : Json}
    (extracts : Extracts env m sig json m') (related : R m n) :
    ∃ n', Extracts env n sig json n' ∧ R m' n' := by
  obtain ⟨fuel, ran⟩ := extracts
  obtain ⟨⟨json', n'⟩, there, same, related'⟩ :=
    extractMessage_forward follows env (Nat.le_refl fuel) related sig _ (ran fuel (Nat.le_refl _))
  simp only at same related'
  rw [← same] at there
  exact ⟨n', extracts_of_ok there, related'⟩

theorem Extracts.unique {M : Type} [MessageReader M] {env : Env} {m first second : M} {sig : Str}
    {json json' : Json} (one : Extracts env m sig json first)
    (two : Extracts env m sig json' second) : json = json' ∧ first = second := by
  simpa using Settles.unique one two

/-- A cursor at the end of a message of its own, moved elsewhere. -/
theorem embeds_end {c d : Cursor} {rest : List Value} (good : c.good = true)
    (embeds : Embeds ⟨c.top.inArray, rest⟩ c.below (Cursor.start []) d) : d = c.withRest rest := by
  generalize exhausted : Cursor.start [] = e at embeds
  cases embeds with
  | outermost own good' =>
      cases exhausted
      simp [Cursor.withRest, good]
  | inside frame frames own good' =>
      have below : [] = frames ++ [⟨false, own⟩] := congrArg Cursor.below exhausted
      simp at below

theorem ReadsAt.reads {env : Env} {fuel : Nat} {vs : List Value} {json : Json}
    (readsAt : ReadsAt env fuel vs json) : Reads env vs json :=
  extracts_of_ok (readsAt (Cursor.start vs) [] rfl (List.append_nil vs).symm)

theorem Reads.readsAt {env : Env} {vs : List Value} {json : Json} (reads : Reads env vs json) :
    ∃ enough, ∀ fuel, enough ≤ fuel → ReadsAt env fuel vs json := by
  obtain ⟨enough, ran⟩ := reads
  refine ⟨enough, fun fuel le c rest good ahead => ?_⟩
  have placed : Embeds ⟨c.top.inArray, rest⟩ c.below (Cursor.start vs) c := by
    have moved := Embeds.of_start good vs rest
    rwa [← ahead] at moved
  obtain ⟨⟨json', d⟩, there, same, related⟩ :=
    extractMessage_forward (Dbus.embeds_follows _ _) env (Nat.le_refl fuel) placed _ _ (ran fuel le)
  simp only at same related
  rw [there, ← same, embeds_end good related]

/-- Values that are each read on their own are all read with one fuel. -/
theorem reads_each {env : Env} {vs : List Value} {js : List Json}
    (each : List.Forall₂ (fun v json => Reads env [v] json) vs js) :
    ∃ enough, ∀ fuel, enough ≤ fuel →
      List.Forall₂ (fun v json => ReadsAt env fuel [v] json) vs js := by
  rw [List.forall₂_iff_zip] at each
  have reads : ∀ p ∈ vs.zip js, ∃ enough, ∀ fuel, enough ≤ fuel → ReadsAt env fuel [p.1] p.2 :=
    fun p inside => (each.2 inside).readsAt
  obtain ⟨enough, all⟩ := Cxx.exists_enough reads
  refine ⟨enough, fun fuel le => ?_⟩
  rw [List.forall₂_iff_zip]
  exact ⟨each.1, fun inside => all fuel le _ inside⟩

/-! ### One piece -/

theorem extractMessage_piece {M : Type} [MessageReader M] (env : Env) (fuel : Nat) (m : M) {t : Ty}
    (splits : Splits t) :
    extractMessage env (fuel + 1) m t.text =
      extractPiece env fuel (extractMessage env fuel) m t.text := by
  change (do let completeSigs ← SignatureUtils.split t.text; _) = _
  rw [SignatureUtils.split_text splits]
  rfl

/-- The basic types that are read into a variable of their own. -/
def Scalar : Basic → Prop
  | .bool | .int _ | .double | .string => True
  | _ => False

theorem Scalar.splits {b : Basic} (scalar : Scalar b) : Splits (.basic b) := by
  cases b with
  | objectPath => contradiction
  | signature => contradiction
  | _ => exact ⟨Basic.noConfusion, Basic.noConfusion⟩

theorem extractPiece_scalar {M : Type} [MessageReader M] {b : Basic} (scalar : Scalar b) {m m' : M}
    {answer : Option Value} (done : MessageReader.read m b = some (answer, m')) (env : Env)
    (fuel : Nat) (extract : Extractor M) :
    extractPiece env fuel extract m (Ty.basic b).text = .ok (env.variable b answer, m') := by
  have taken : read env b m = .ok (env.variable b answer, m') := by
    rw [read, done]
  cases b with
  | bool =>
      change extractBool env m = _
      rw [extractBool, done]
      rfl
  | int t => cases t <;> exact taken
  | double => exact taken
  | string => exact taken
  | objectPath => contradiction
  | signature => contradiction
  | unixFd => contradiction

theorem readsAt_scalar (env : Env) (fuel : Nat) {v : Value} {b : Basic} (type : v.typeOf = .basic b)
    (scalar : Scalar b) : ReadsAt env (fuel + 1) [v] (ofBasic v) := by
  intro c rest good ahead
  have done : MessageReader.read c b = some (some v, c.withRest rest) := Cursor.read_basic ahead type
  rw [List.map_singleton, Ty.texts_singleton, type, extractMessage_piece env fuel c scalar.splits]
  exact extractPiece_scalar scalar done env fuel _

theorem enterContainer_cursor {c : Cursor} {kind : ContainerKind} {contents : Str} {v : Value}
    {rest : List Value} {frame : ReadFrame} (ahead : c.top.rest = v :: rest)
    (clean : cStr contents = contents) (shape : v.frame? kind contents = some frame) :
    enterContainer kind c contents = .ok (c.inside frame rest) := by
  rw [enterContainer, clean]
  exact orThrow_eq_ok.mpr (Cursor.enterContainer_of_frame ahead shape)

theorem exitContainer_cursor (c : Cursor) (kind : ContainerKind) (frame : ReadFrame)
    (rest : List Value) :
    exitContainer kind ((c.inside frame rest).withRest []) = .ok (c.withRest rest) :=
  orThrow_eq_ok.mpr (Cursor.exitContainer_inside c frame rest)

theorem ReadsAt.variant {env : Env} {fuel : Nat} {content : Value} {json : Json}
    (inner : ReadsAt env fuel [content] json) :
    ReadsAt env (fuel + 1) [.variant content]
      (.object [("value".toList, json), ("variant".toList, .string content.typeOf.text)]) := by
  intro c rest good ahead
  have next : c.top.rest = .variant content :: rest := ahead
  have splits : Splits .variant := trivial
  have peek : MessageReader.peekType c = ('v', some content.typeOf.text) := by
    change c.peekType = _
    rw [Cursor.peekType, next]
  have entered := enterContainer_cursor next (cStr_text content.typeOf)
    (show Value.frame? .variant _ _ = _ from if_pos rfl)
  have held := inner (c.inside ⟨false, [content]⟩ rest) [] good rfl
  rw [List.map_singleton, Ty.texts_singleton] at held
  rw [List.map_singleton, Ty.texts_singleton, Value.typeOf_variant,
    extractMessage_piece env fuel c splits]
  change extractVariant (extractMessage env fuel) c = _
  simp only [extractVariant, peek, ↓reduceIte, entered, held, exitContainer_cursor, Cxx.bind_ok]

theorem extractPiece_struct {M : Type} [MessageReader M] (env : Env) (fuel : Nat)
    (extract : Extractor M) (m : M) (fields : List Ty) :
    extractPiece env fuel extract m (Ty.struct fields).text =
      extractStruct extract m (Ty.struct fields).text := by
  rw [Ty.text_struct]
  rfl

theorem ReadsAt.struct {env : Env} {fuel : Nat} {fields : List Value} {json : Json}
    (inner : ReadsAt env fuel fields json) : ReadsAt env (fuel + 1) [.struct fields] json := by
  intro c rest good ahead
  have next : c.top.rest = .struct fields :: rest := ahead
  have splits : Splits (.struct (fields.map Value.typeOf)) := trivial
  have entered := enterContainer_cursor next (cStr_texts (fields.map Value.typeOf))
    (show Value.frame? .struct _ _ = _ from if_pos rfl)
  have held := inner (c.inside ⟨false, fields⟩ rest) [] good (List.append_nil fields).symm
  rw [List.map_singleton, Ty.texts_singleton, Value.typeOf_struct,
    extractMessage_piece env fuel c splits]
  rw [extractPiece_struct, extractStruct, substr_struct, Cxx.bind_ok, entered, Cxx.bind_ok, held, Cxx.bind_ok]
  simp only [exitContainer_cursor, Cxx.bind_ok]

/-! ### Loops that read -/

/-- Past the elements the loop over them goes on with what is left. -/
theorem extractElements_items {env : Env} {fuel : Nat} {elem : Ty} {items : List Value}
    {js : List Json} (each : List.Forall₂ (fun v json => ReadsAt env fuel [v] json) items js)
    (types : ∀ item ∈ items, item.typeOf = elem) {c : Cursor} {rest : List Value}
    (good : c.good = true) (ahead : c.top.rest = items ++ rest) (more : Nat) (result : List Json) :
    extractElements (extractMessage env fuel) elem.text (items.length + more) c result =
      extractElements (extractMessage env fuel) elem.text more (c.withRest rest) (result ++ js) := by
  induction each generalizing c result with
  | nil =>
      have same : c.withRest rest = c := Cursor.withRest_of_ahead ahead
      rw [same, List.length_nil, Nat.zero_add, List.append_nil]
  | @cons v json items js first others ih =>
      have read := first c (items ++ rest) good ahead
      rw [List.map_singleton, Ty.texts_singleton, types v (by simp)] at read
      have later := ih (fun item inside => types item (by simp [inside]))
        (show (c.withRest (items ++ rest)).good = true from good) rfl (result ++ [json])
      rw [List.length_cons, Nat.add_right_comm, extractElements, read, Cxx.bind_ok]
      change (if c.good = true then _ else _) = _
      rw [if_pos good, later, List.append_assoc, Cursor.withRest_withRest]
      rfl

/-- A struct that is read was entered, its fields read, and left. -/
theorem ReadsAt.fields {env : Env} {fuel : Nat} {fields : List Value} {json : Json}
    (reads : ReadsAt env (fuel + 1) [.struct fields] json) {c : Cursor} {rest : List Value}
    (good : c.good = true) (ahead : c.top.rest = .struct fields :: rest) :
    ∃ d, extractMessage env fuel (c.inside ⟨false, fields⟩ rest)
        (Ty.texts (fields.map Value.typeOf)) = .ok (json, d) ∧
      d.good = true ∧ exitContainer .struct d = .ok (c.withRest rest) := by
  have splits : Splits (.struct (fields.map Value.typeOf)) := trivial
  have entered := enterContainer_cursor ahead (cStr_texts (fields.map Value.typeOf))
    (show Value.frame? .struct _ _ = _ from if_pos rfl)
  have done := reads c rest good ahead
  rw [List.map_singleton, Ty.texts_singleton, Value.typeOf_struct,
    extractMessage_piece env fuel c splits, extractPiece_struct, extractStruct, substr_struct,
    Cxx.bind_ok, entered, Cxx.bind_ok] at done
  obtain ⟨⟨json', d⟩, inner, left⟩ := Cxx.bind_eq_ok.mp done
  obtain ⟨e, exited, same⟩ := Cxx.bind_eq_ok.mp left
  cases same
  refine ⟨d, inner, ?_, exited⟩
  obtain ⟨_, parent, below, _, outside⟩ := Cursor.exitContainer_eq_some.mp (orThrow_eq_ok.mp exited)
  have kept : (c.withRest rest).good = d.good := by rw [outside]
  rw [← kept]
  exact good

theorem extractStructs_items {env : Env} {fuel : Nat} {fields : List Ty} {items : List Value}
    {js : List Json} (each : List.Forall₂ (fun v json => ReadsAt env (fuel + 1) [v] json) items js)
    (types : ∀ item ∈ items, item.typeOf = .struct fields) {c : Cursor} {rest : List Value}
    (good : c.good = true) (ahead : c.top.rest = items ++ rest) (more : Nat) (result : List Json) :
    extractStructs (extractMessage env fuel) (Ty.texts fields) (items.length + more) c result =
      extractStructs (extractMessage env fuel) (Ty.texts fields) more (c.withRest rest)
        (result ++ js) := by
  induction each generalizing c result with
  | nil =>
      have same : c.withRest rest = c := Cursor.withRest_of_ahead ahead
      rw [same, List.length_nil, Nat.zero_add, List.append_nil]
  | @cons v json items js first others ih =>
      obtain ⟨held, rfl⟩ : ∃ held, v = .struct held := by
        have type := types v (by simp)
        cases v with
        | struct held => exact ⟨held, rfl⟩
        | _ => simp [Value.typeOf] at type
      have type : held.map Value.typeOf = fields := by
        simpa using types (.struct held) (by simp)
      have next : c.top.rest = .struct held :: (items ++ rest) := ahead
      have entered := enterContainer_cursor next (cStr_texts (held.map Value.typeOf))
        (show Value.frame? .struct _ _ = _ from if_pos rfl)
      obtain ⟨d, read, flag, left⟩ := first.fields good next
      have later := ih (fun item inside => types item (by simp [inside]))
        (show (c.withRest (items ++ rest)).good = true from good) rfl (result ++ [json])
      rw [type] at entered read
      rw [List.length_cons, Nat.add_right_comm, extractStructs, entered, Cxx.bind_ok]
      change (if c.good = true then _ else _) = _
      rw [if_pos good, read, Cxx.bind_ok]
      change (if d.good = true then _ else _) = _
      rw [if_pos flag, left, Cxx.bind_ok, later, List.append_assoc, Cursor.withRest_withRest]
      rfl

/-- One round of the loop over the entries of a dict. -/
theorem extractEntries_round {env : Env} {fuel : Nat} {b : Basic} {key value : Value}
    {keyJson valueJson : Json} (readsKey : ReadsAt env fuel [key] keyJson)
    (readsValue : ReadsAt env fuel [value] valueJson) (keyType : key.typeOf = .basic b)
    {c : Cursor} {rest : List Value} (good : c.good = true)
    (ahead : c.top.rest = .entry key value :: rest) (more : Nat) (result : Json) :
    extractEntries (extractMessage env fuel) (b.code :: value.typeOf.text) (more + 1) c result =
      (result.setMember keyJson.keyText valueJson) >>= fun result =>
        extractEntries (extractMessage env fuel) (b.code :: value.typeOf.text) more
          (c.withRest rest) result := by
  have clean : cStr (b.code :: value.typeOf.text) = b.code :: value.typeOf.text := by
    simpa using cStr_texts [.basic b, value.typeOf]
  have shape : Value.frame? .dictEntry (b.code :: value.typeOf.text) (.entry key value) =
      some ⟨false, [key, value]⟩ := by
    rw [Value.frame?, keyType]
    exact if_pos rfl
  have entered := enterContainer_cursor ahead clean shape
  have inside : (c.inside ⟨false, [key, value]⟩ rest).good = true := good
  have first := readsKey _ [value] inside rfl
  have second := readsValue ((c.inside ⟨false, [key, value]⟩ rest).withRest [value]) [] good rfl
  rw [List.map_singleton, Ty.texts_singleton, keyType, Ty.text_basic] at first
  rw [List.map_singleton, Ty.texts_singleton, Cursor.withRest_withRest] at second
  rw [extractEntries, entered, Cxx.bind_ok]
  change (if c.good = true then _ else _) = _
  rw [if_pos good, substr_key, Cxx.bind_ok, first, Cxx.bind_ok]
  simp only [substrFrom_key, second, Cxx.bind_ok, exitContainer_cursor]

/-- A dict entry with what its parts are read as. -/
structure EntryPart where
  key : Value
  value : Value
  keyJson : Json
  valueJson : Json

def EntryPart.entry (p : EntryPart) : Value := .entry p.key p.value

def EntryPart.member (p : EntryPart) : Str × Json := (p.keyJson.keyText, p.valueJson)

/-- The entry is read by a dict whose entries have these types. -/
structure EntryPart.ReadAt (env : Env) (fuel : Nat) (b : Basic) (t : Ty) (p : EntryPart) : Prop where
  keyType : p.key.typeOf = .basic b
  valueType : p.value.typeOf = t
  key : ReadsAt env fuel [p.key] p.keyJson
  value : ReadsAt env fuel [p.value] p.valueJson

theorem extractEntries_items {env : Env} {fuel : Nat} {b : Basic} {t : Ty} {parts : List EntryPart}
    (each : ∀ p ∈ parts, p.ReadAt env fuel b t) {c : Cursor} {rest : List Value}
    (good : c.good = true) (ahead : c.top.rest = parts.map EntryPart.entry ++ rest) (more : Nat)
    (existing : List (Str × Json)) :
    extractEntries (extractMessage env fuel) (b.code :: t.text) (parts.length + more) c
        (.object existing) =
      extractEntries (extractMessage env fuel) (b.code :: t.text) more (c.withRest rest)
        (.object (OrderedMap.insertAll (parts.map EntryPart.member) existing)) := by
  induction parts generalizing c existing with
  | nil =>
      have same : c.withRest rest = c := Cursor.withRest_of_ahead ahead
      rw [same, List.length_nil, Nat.zero_add]
      rfl
  | cons p parts ih =>
      have here := each p (by simp)
      have next : c.top.rest = .entry p.key p.value :: (parts.map EntryPart.entry ++ rest) := ahead
      have round := extractEntries_round here.key here.value here.keyType good next
        (parts.length + more) (.object existing)
      have later := ih (fun q inside => each q (by simp [inside]))
        (show (c.withRest (parts.map EntryPart.entry ++ rest)).good = true from good) rfl
        (OrderedMap.insertEntry p.keyJson.keyText p.valueJson existing)
      rw [here.valueType] at round
      rw [List.length_cons, Nat.add_right_comm, round]
      exact later

/-- The pieces of a signature are read one after the other. -/
theorem extractNext_pieces {env : Env} {fuel : Nat} {vs : List Value} {js : List Json}
    (each : List.Forall₂ (fun v json => ReadsAt env fuel [v] json) vs js) {c : Cursor}
    {rest : List Value} (good : c.good = true) (ahead : c.top.rest = vs ++ rest)
    (result : List Json) :
    ((vs.map Value.typeOf).map Ty.text).foldlM (extractNext (extractMessage env fuel)) (result, c) =
      .ok (result ++ js, c.withRest rest) := by
  induction each generalizing c result with
  | nil =>
      have same : c.withRest rest = c := Cursor.withRest_of_ahead ahead
      rw [same, List.append_nil]
      rfl
  | @cons v json vs js first others ih =>
      have read := first c (vs ++ rest) good ahead
      rw [List.map_singleton, Ty.texts_singleton] at read
      have later := ih (show (c.withRest (vs ++ rest)).good = true from good) rfl (result ++ [json])
      rw [List.map_cons, List.map_cons, List.foldlM_cons, extractNext, read, Cxx.bind_ok, Cxx.bind_ok,
        later, List.append_assoc, Cursor.withRest_withRest]
      rfl

theorem ReadsAt.several {env : Env} {fuel : Nat} {vs : List Value} {js : List Json}
    (several : 1 < vs.length) (splits : ∀ v ∈ vs, Splits v.typeOf)
    (each : List.Forall₂ (fun v json => ReadsAt env fuel [v] json) vs js) :
    ReadsAt env (fuel + 1) vs (.array js) := by
  intro c rest good ahead
  have pieces : SignatureUtils.split (Ty.texts (vs.map Value.typeOf)) =
      .ok ((vs.map Value.typeOf).map Ty.text) := by
    apply SignatureUtils.split_texts
    intro t inside
    obtain ⟨v, member, rfl⟩ := List.mem_map.mp inside
    exact splits v member
  have long : 1 < ((vs.map Value.typeOf).map Ty.text).length := by
    simpa using several
  rw [extractMessage, extractCall, pieces, Cxx.bind_ok, if_pos long,
    extractNext_pieces each good ahead]
  rfl

/-! ### Arrays -/

/-- A cursor inside an array that has been read to its end. -/
def pastEnd (c : Cursor) (items rest : List Value) : Cursor :=
  { (c.inside ⟨true, items⟩ rest).withRest [] with good := false }

theorem leaveArray {c : Cursor} (good : c.good = true) (items rest : List Value) :
    exitContainer .array (MessageReader.clearFlags (pastEnd c items rest)) =
      .ok (c.withRest rest) := by
  apply orThrow_eq_ok.mpr
  change some ({ c with top := (c.withRest rest).top, below := c.below, good := true } : Cursor) = _
  rw [← good]
  rfl

theorem extractMessage_end {env : Env} {b : Basic} (scalar : Scalar b) (fuel : Nat) (c : Cursor)
    (items rest : List Value) :
    extractMessage env (fuel + 1) ((c.inside ⟨true, items⟩ rest).withRest []) (Ty.basic b).text =
      .ok (env.unset b, pastEnd c items rest) := by
  have ended : MessageReader.read ((c.inside ⟨true, items⟩ rest).withRest []) b =
      some (none, pastEnd c items rest) := rfl
  rw [extractMessage_piece env fuel _ scalar.splits]
  exact extractPiece_scalar scalar ended env fuel _

/-- The arrays that are read by the loop over elements. -/
theorem extractPiece_plainArray {M : Type} [MessageReader M] (env : Env) {elem : Ty}
    (notDict : elem.text.head? ≠ some '{') (notStruct : elem.text.head? ≠ some '(')
    (notBytes : ¬ (elem = .basic (.int .byte) ∧ env.config.binarySupport = true)) (fuel : Nat)
    (extract : Extractor M) (m : M) :
    extractPiece env fuel extract m (Ty.array elem).text =
      extractPlainArray fuel extract m (Ty.array elem).text := by
  have second : ∀ d : Char, d ≠ '\x00' → elem.text.head? ≠ some d →
      charAt (Ty.array elem).text 1 ≠ d := by
    intro d visible different
    rw [Ty.text_array, charAt, List.getElem?_cons_succ, ← List.head?_eq_getElem?]
    cases front : elem.text.head? with
    | none => exact visible.symm
    | some e =>
        rw [front] at different
        simpa using different
  have other : ¬ ((Ty.array elem).text = "ay".toList ∧ env.config.binarySupport = true) := by
    rintro ⟨text, binary⟩
    apply notBytes
    have bytes : elem.text = (Ty.basic (.int .byte)).text := (List.cons.inj text).2
    exact ⟨Ty.text_injective bytes, binary⟩
  change extractArray env fuel extract m _ = _
  rw [extractArray, if_neg (second _ (by decide) notDict), if_neg (second _ (by decide) notStruct),
    if_neg other]

theorem ReadsAt.scalarArray {env : Env} {fuel : Nat} {b : Basic} (scalar : Scalar b)
    (notBytes : ¬ (b = .int .byte ∧ env.config.binarySupport = true)) {items : List Value}
    {js : List Json} (each : List.Forall₂ (fun v json => ReadsAt env fuel [v] json) items js)
    (types : ∀ item ∈ items, item.typeOf = .basic b) (enough : items.length < fuel) :
    ReadsAt env (fuel + 1) [.array (.basic b) items] (.array js) := by
  intro c rest good ahead
  have next : c.top.rest = .array (.basic b) items :: rest := ahead
  have splits : Splits (.array (.basic b)) := trivial
  have entered := enterContainer_cursor next (cStr_text (.basic b))
    (show Value.frame? .array _ _ = _ from if_pos rfl)
  obtain ⟨more, rfl⟩ : ∃ more, fuel = items.length + (more + 1) :=
    ⟨fuel - items.length - 1, by omega⟩
  have codes := b.code_plain
  have plain := @extractPiece_plainArray Cursor _ env (.basic b)
    (by simpa using codes.2.2.2.2.1) (by simpa using codes.2.2.1) (by simpa using notBytes)
  have looped : extractElements (extractMessage env (items.length + (more + 1)))
      (Ty.basic b).text (items.length + (more + 1)) (c.inside ⟨true, items⟩ rest) [] =
      .ok (js, pastEnd c items rest) := by
    have inside : (c.inside ⟨true, items⟩ rest).good = true := good
    rw [extractElements_items each types inside (List.append_nil items).symm, extractElements,
      ← Nat.add_assoc, extractMessage_end scalar, Cxx.bind_ok]
    rfl
  rw [List.map_singleton, Ty.texts_singleton, Value.typeOf_array, extractMessage_piece env _ c splits,
    plain, extractPlainArray, substrFrom_array, Cxx.bind_ok, entered,
    Cxx.bind_ok, looped, Cxx.bind_ok]
  simp only [leaveArray good, Cxx.bind_ok]

theorem ReadsAt.structArray {env : Env} {fuel : Nat} {fields : List Ty} {items : List Value}
    {js : List Json} (each : List.Forall₂ (fun v json => ReadsAt env (fuel + 1) [v] json) items js)
    (types : ∀ item ∈ items, item.typeOf = .struct fields) (enough : items.length < fuel) :
    ReadsAt env (fuel + 1) [.array (.struct fields) items] (.array js) := by
  intro c rest good ahead
  have next : c.top.rest = .array (.struct fields) items :: rest := ahead
  have splits : Splits (.array (.struct fields)) := trivial
  have entered := enterContainer_cursor next (cStr_text (.struct fields))
    (show Value.frame? .array _ _ = _ from if_pos rfl)
  have struct : charAt (Ty.array (.struct fields)).text 1 = '(' := by
    rw [Ty.text_array, Ty.text_struct]
    rfl
  have notDict : charAt (Ty.array (.struct fields)).text 1 ≠ '{' := by
    rw [struct]
    decide
  obtain ⟨more, same⟩ : ∃ more, fuel = items.length + (more + 1) :=
    ⟨fuel - items.length - 1, by omega⟩
  have looped : extractStructs (extractMessage env fuel) (Ty.texts fields) fuel
      (c.inside ⟨true, items⟩ rest) [] = .ok (js, pastEnd c items rest) := by
    have inside : (c.inside ⟨true, items⟩ rest).good = true := good
    have steps := extractStructs_items each types inside (List.append_nil items).symm (more + 1) []
    rw [← same] at steps
    rw [steps]
    rfl
  rw [List.map_singleton, Ty.texts_singleton, Value.typeOf_array, extractMessage_piece env _ c splits]
  change extractArray env fuel _ c _ = _
  rw [extractArray, if_neg notDict, if_pos struct, extractStructArray, substrFrom_array, Cxx.bind_ok,
    substr_struct, Cxx.bind_ok, entered, Cxx.bind_ok, looped, Cxx.bind_ok]
  simp only [leaveArray good, Cxx.bind_ok]

/-- The loop over all the entries of a dict. -/
theorem extractEntries_all {env : Env} {fuel : Nat} {b : Basic} {t : Ty} {parts : List EntryPart}
    (each : ∀ p ∈ parts, p.ReadAt env fuel b t) {c : Cursor} (good : c.good = true)
    (rest : List Value) (more : Nat) :
    extractEntries (extractMessage env fuel) (b.code :: t.text) (parts.length + (more + 1))
        (c.inside ⟨true, parts.map EntryPart.entry⟩ rest) .null =
      .ok (Json.ofAssignments (parts.map EntryPart.member),
        pastEnd c (parts.map EntryPart.entry) rest) := by
  cases parts with
  | nil =>
      rw [List.length_nil, Nat.zero_add]
      rfl
  | cons p parts =>
      have here := each p (by simp)
      have inside : (c.inside ⟨true, (p :: parts).map EntryPart.entry⟩ rest).good = true := good
      have first := extractEntries_round here.key here.value here.keyType inside rfl
        (parts.length + (more + 1)) .null
      have others := extractEntries_items (fun q member => each q (by simp [member]))
        (show ((c.inside ⟨true, (p :: parts).map EntryPart.entry⟩ rest).withRest
          (parts.map EntryPart.entry)).good = true from good)
        (List.append_nil (parts.map EntryPart.entry)).symm (more + 1) [p.member]
      rw [here.valueType] at first
      rw [List.length_cons, Nat.add_right_comm, first]
      change extractEntries _ _ _ _ (.object [p.member]) = _
      rw [others]
      rfl

theorem ReadsAt.dict {env : Env} {fuel : Nat} {b : Basic} {t : Ty} {parts : List EntryPart}
    (each : ∀ p ∈ parts, p.ReadAt env fuel b t) (enough : parts.length < fuel) :
    ReadsAt env (fuel + 1) [.array (.entry (.basic b) t) (parts.map EntryPart.entry)]
      (Json.ofAssignments (parts.map EntryPart.member)) := by
  intro c rest good ahead
  have next : c.top.rest = .array (.entry (.basic b) t) (parts.map EntryPart.entry) :: rest := ahead
  have splits : Splits (.array (.entry (.basic b) t)) := trivial
  have entered := enterContainer_cursor next (cStr_text (.entry (.basic b) t))
    (show Value.frame? .array _ _ = _ from if_pos rfl)
  have dict : charAt (Ty.array (.entry (.basic b) t)).text 1 = '{' := rfl
  obtain ⟨more, same⟩ : ∃ more, fuel = parts.length + (more + 1) :=
    ⟨fuel - parts.length - 1, by omega⟩
  have looped := extractEntries_all each good rest more
  rw [← same] at looped
  rw [List.map_singleton, Ty.texts_singleton, Value.typeOf_array, extractMessage_piece env _ c splits]
  change extractArray env fuel _ c _ = _
  rw [extractArray, if_pos dict, extractDict, substrFrom_array, Cxx.bind_ok, substr_entry,
    Cxx.bind_ok, entered, Cxx.bind_ok, Ty.text_basic, List.singleton_append, looped, Cxx.bind_ok]
  simp only [leaveArray good, Cxx.bind_ok]

/-! ### Values of a message of their own -/

theorem reads_scalar (env : Env) {v : Value} {b : Basic} (type : v.typeOf = .basic b)
    (scalar : Scalar b) : Reads env [v] (ofBasic v) :=
  (readsAt_scalar env 0 type scalar).reads

theorem Reads.variant {env : Env} {content : Value} {json : Json} (inner : Reads env [content] json) :
    Reads env [.variant content]
      (.object [("value".toList, json), ("variant".toList, .string content.typeOf.text)]) := by
  obtain ⟨fuel, readsAt⟩ := inner.readsAt
  exact (readsAt fuel (Nat.le_refl _)).variant.reads

theorem Reads.struct {env : Env} {fields : List Value} {json : Json} (inner : Reads env fields json) :
    Reads env [.struct fields] json := by
  obtain ⟨fuel, readsAt⟩ := inner.readsAt
  exact (readsAt fuel (Nat.le_refl _)).struct.reads

theorem reads_several {env : Env} {vs : List Value} {js : List Json} (several : 1 < vs.length)
    (splits : ∀ v ∈ vs, Splits v.typeOf)
    (each : List.Forall₂ (fun v json => Reads env [v] json) vs js) : Reads env vs (.array js) := by
  obtain ⟨fuel, readsAt⟩ := reads_each each
  exact (ReadsAt.several several splits (readsAt fuel (Nat.le_refl _))).reads

/-- The element types whose arrays are read as JSON arrays. -/
def ArrayRead (env : Env) : Ty → Prop
  | .basic b => Scalar b ∧ ¬ (b = .int .byte ∧ env.config.binarySupport = true)
  | .struct _ => True
  | _ => False

theorem reads_array {env : Env} {elem : Ty} (read : ArrayRead env elem) {items : List Value}
    {js : List Json} (types : ∀ item ∈ items, item.typeOf = elem)
    (each : List.Forall₂ (fun v json => Reads env [v] json) items js) :
    Reads env [.array elem items] (.array js) := by
  obtain ⟨enough, readsAt⟩ := reads_each each
  have fuel : enough ≤ max enough (items.length + 1) ∧ items.length < max enough (items.length + 1) :=
    by omega
  cases elem with
  | basic b => exact (ReadsAt.scalarArray read.1 read.2 (readsAt _ fuel.1) types fuel.2).reads
  | struct fields =>
      exact (ReadsAt.structArray (readsAt _ (Nat.le_succ_of_le fuel.1)) types fuel.2).reads
  | variant => exact read.elim
  | array inner => exact read.elim
  | entry key value => exact read.elim

/-- A dict is read when its keys and its values are. -/
theorem reads_dict {env : Env} {b : Basic} {t : Ty} {parts : List EntryPart}
    (types : ∀ p ∈ parts, p.key.typeOf = .basic b ∧ p.value.typeOf = t)
    (keys : ∀ p ∈ parts, Reads env [p.key] p.keyJson)
    (values : ∀ p ∈ parts, Reads env [p.value] p.valueJson) :
    Reads env [.array (.entry (.basic b) t) (parts.map EntryPart.entry)]
      (Json.ofAssignments (parts.map EntryPart.member)) := by
  have each : ∀ p ∈ parts, ∃ enough, ∀ fuel, enough ≤ fuel → p.ReadAt env fuel b t := by
    intro p inside
    obtain ⟨n, key⟩ := (keys p inside).readsAt
    obtain ⟨m, value⟩ := (values p inside).readsAt
    refine ⟨max n m, fun fuel le => ?_⟩
    exact ⟨(types p inside).1, (types p inside).2, key fuel (by omega), value fuel (by omega)⟩
  obtain ⟨enough, readsAt⟩ := Cxx.exists_enough each
  have fuel : enough ≤ max enough (parts.length + 1) ∧ parts.length < max enough (parts.length + 1) :=
    by omega
  exact (ReadsAt.dict (readsAt _ fuel.1) fuel.2).reads

/-- What is read on its own is read the same way from every message that it comes next in. -/
theorem Reads.anywhere {env : Env} {v : Value} {json : Json} (reads : Reads env [v] json) {M : Type}
    [LawfulReader M] {m : M} {rest : List Value} (good : (LawfulReader.cursor m).good = true)
    (ahead : (LawfulReader.cursor m).top.rest = v :: rest) :
    ∃ m', Extracts env m v.typeOf.text json m' ∧
      LawfulReader.cursor m' = (LawfulReader.cursor m).withRest rest := by
  obtain ⟨fuel, readsAt⟩ := reads.readsAt
  have ran := readsAt fuel (Nat.le_refl _) (LawfulReader.cursor m) rest good ahead
  rw [List.map_singleton, Ty.texts_singleton] at ran
  exact (extracts_of_ok ran).follows (Dbus.follows_of_cursor M) rfl

end Dbus2Http.Message2Json
